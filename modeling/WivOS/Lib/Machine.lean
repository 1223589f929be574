/-
# Runs of a partial machine

A machine is a state type, an operation type and a step that need not return:
`none` stands for a fault, an endless loop, or an operation its caller had no
right to make. A run is the operations taken one after another (`run`); it is
defined only if every one of them returns.

A property of whole runs comes from a property of one step in one of two ways:
an invariant every step keeps (`run_invariant`), or an invariant kept by the
steps that meet a condition on the state before them and on the operation
(`Along`, `run_invariant_along`; `run_total_along` if those steps all return;
`along_of_invariant` and `along_of_run` if an invariant gives the condition, `along_of_forall` if it is on the
operations only). A machine that simulates a total one returns from the runs of that one
(`run_simulation`). `counted_loop` is the rule for a loop over `0 .. m - 1` inside one
operation.
-/
import Mathlib.Data.List.Basic

namespace Machine

open List Option

variable {σ ι : Type*} (step : σ → ι → Option σ)

def run (s : σ) (ops : List ι) : Option σ := ops.foldlM step s

@[simp] lemma run_nil (s : σ) : run step s [] = some s := rfl

@[simp] lemma run_cons (s : σ) (i : ι) (is : List ι) :
    run step s (i :: is) = (step s i).bind fun s' => run step s' is := rfl

lemma run_append (s : σ) (is js : List ι) :
    run step s (is ++ js) = (run step s is).bind fun s' => run step s' js := by
  simp [run, foldlM_append, bind_eq_bind]

lemma exists_run {P : σ → Prop} [DecidablePred P] {s : σ} {ops : List ι} (h : (run step s ops).any (P ·)) :
    ∃ t, run step s ops = some t ∧ P t := by
  cases hr : run step s ops with
  | none => rw [hr] at h; exact absurd h Bool.false_ne_true
  | some t => rw [hr] at h; exact ⟨t, rfl, of_decide_eq_true h⟩

lemma run_eq_none {i : ι} (hstep : ∀ s, step s i = none) : ∀ {ops : List ι} (s : σ), i ∈ ops → run step s ops = none
  | j :: ops, s, hi => by
    rw [run_cons]
    rcases mem_cons.mp hi with rfl | hi
    · rw [hstep, bind_none]
    · cases step s j with
      | none => rfl
      | some s' => exact run_eq_none hstep s' hi

variable {I : σ → Prop} {C : σ → ι → Prop} {P : ι → Prop}

lemma run_invariant (hstep : ∀ s i s', I s → step s i = some s' → I s') :
    ∀ (ops : List ι) (s t : σ), I s → run step s ops = some t → I t
  | [], s, t, hs, h => by
    simp only [run_nil, some.injEq] at h
    exact h ▸ hs
  | i :: is, s, t, hs, h => by
    rw [run_cons, bind_eq_some_iff] at h
    obtain ⟨s', h1, h2⟩ := h
    exact run_invariant hstep is s' t (hstep s i s' hs h1) h2

/-- Every step of the run from `s` meets `C`, a condition on the state before
the step and on the operation. -/
def Along (C : σ → ι → Prop) : σ → List ι → Prop
  | _, [] => True
  | s, i :: is => C s i ∧ ∀ s', step s i = some s' → Along C s' is

instance decidableAlong {C : σ → ι → Prop} [∀ s i, Decidable (C s i)] :
    ∀ (s : σ) (ops : List ι), Decidable (Along step C s ops)
  | _, [] => isTrue trivial
  | s, i :: is =>
    match h : step s i with
    | none => decidable_of_iff (C s i) ⟨fun hC => ⟨hC, fun s' hs' => by simp [h] at hs'⟩, And.left⟩
    | some s' =>
      have : Decidable (Along step C s' is) := decidableAlong s' is
      decidable_of_iff (C s i ∧ Along step C s' is)
        (and_congr_right fun _ => ⟨fun hA t ht => by rw [h] at ht; exact some.inj ht ▸ hA, fun hA => hA s' h⟩)

/-- Where an invariant gives the condition, it is met along every run of such operations. -/
lemma along_of_invariant (hstep : ∀ s i s', I s → P i → step s i = some s' → I s') (hmet : ∀ s i, I s → P i → C s i) :
    ∀ (ops : List ι) (s : σ), I s → (∀ i ∈ ops, P i) → Along step C s ops
  | [], _, _, _ => trivial
  | i :: is, s, hs, hP => by
    have hi := hP i mem_cons_self
    exact ⟨hmet s i hs hi, fun s' h => along_of_invariant hstep hmet is s' (hstep s i s' hs hi h)
      fun j hj => hP j (mem_cons_of_mem i hj)⟩

lemma along_of_forall (ops : List ι) (s : σ) (h : ∀ i ∈ ops, P i) : Along step (fun _ i => P i) s ops :=
  along_of_invariant step (I := fun _ => True) (fun _ _ _ _ _ _ => trivial) (fun _ _ _ hi => hi) ops s trivial h

/-- In a run that returns, the condition needs to be shown for the steps that return only. -/
lemma along_of_run (hstep : ∀ s i s', I s → P i → step s i = some s' → C s i ∧ I s') :
    ∀ (ops : List ι) (s t : σ), I s → (∀ i ∈ ops, P i) → run step s ops = some t → Along step C s ops
  | [], _, _, _, _, _ => trivial
  | i :: is, s, t, hs, hP, h => by
    rw [run_cons, bind_eq_some_iff] at h
    obtain ⟨s', h1, h2⟩ := h
    obtain ⟨hC, hs'⟩ := hstep s i s' hs (hP i mem_cons_self) h1
    refine ⟨hC, fun s'' h'' => ?_⟩
    obtain rfl : s' = s'' := some.inj (h1.symm.trans h'')
    exact along_of_run hstep is s' t hs' (fun j hj => hP j (mem_cons_of_mem i hj)) h2

/-- What the steps that meet `C` keep holds after every run whose steps meet
`C`. -/
lemma run_invariant_along (hstep : ∀ s i s', I s → C s i → step s i = some s' → I s') :
    ∀ (ops : List ι) (s t : σ), I s → Along step C s ops → run step s ops = some t → I t
  | [], s, t, hs, _, h => by
    simp only [run_nil, some.injEq] at h
    exact h ▸ hs
  | i :: is, s, t, hs, hC, h => by
    rw [run_cons, bind_eq_some_iff] at h
    obtain ⟨s', h1, h2⟩ := h
    exact run_invariant_along hstep is s' t (hstep s i s' hs hC.1 h1) (hC.2 s' h1) h2

/-- Where every step that meets `C` returns, so does every run whose steps meet it. -/
lemma run_total_along (hstep : ∀ s i, I s → C s i → ∃ s', step s i = some s' ∧ I s') :
    ∀ (ops : List ι) (s : σ), I s → Along step C s ops → ∃ t, run step s ops = some t ∧ I t
  | [], s, hs, _ => ⟨s, rfl, hs⟩
  | i :: is, s, hs, hC => by
    obtain ⟨s', h', hs'⟩ := hstep s i hs hC.1
    obtain ⟨t, ht, hI⟩ := run_total_along hstep is s' hs' (hC.2 s' h')
    exact ⟨t, by rw [run_cons, h', bind_some, ht], hI⟩

lemma run_total {ops : List ι} (hstep : ∀ s, ∀ i ∈ ops, I s → ∃ s', step s i = some s' ∧ I s') (s : σ) (hs : I s) :
    ∃ t, run step s ops = some t ∧ I t :=
  run_total_along step (fun s i hs hi => hstep s i hi hs) ops s hs (along_of_forall step ops s fun _ hi => hi)

/-- Simulation: where a step of `spec` meets `C`, the machine returns and stays
related to it. So it returns from every run that `spec` makes under `C`. -/
lemma run_simulation {τ : Type*} {spec : τ → ι → τ} {C : τ → ι → Prop} {R : σ → τ → Prop}
    (hstep : ∀ s t i, R s t → C t i → ∃ s', step s i = some s' ∧ R s' (spec t i)) :
    ∀ (ops : List ι) (s : σ) (t : τ), R s t → Along (fun t i => some (spec t i)) C t ops →
      ∃ s', run step s ops = some s' ∧ R s' (ops.foldl spec t)
  | [], s, _, hR, _ => ⟨s, rfl, hR⟩
  | i :: is, s, t, hR, hC => by
    obtain ⟨s1, h1, hR1⟩ := hstep s t i hR hC.1
    obtain ⟨s2, h2, hR2⟩ := run_simulation hstep is s1 (spec t i) hR1 (hC.2 _ rfl)
    exact ⟨s2, by rw [run_cons, h1, bind_some, h2], hR2⟩

/-- A counted loop. A round returns where `H` holds, and keeps it; if `G` holds
after a round it held before, and the round then takes `I l` to `I (l + 1)`.
So the loop returns, and takes `I 0` to `I m` if `G` holds at its end. -/
lemma counted_loop {f : σ → ℕ → Option σ} {H G : σ → Prop} {I : ℕ → σ → Prop} : ∀ m : ℕ,
    (∀ l < m, ∀ s, H s → ∃ s', f s l = some s' ∧ H s' ∧ (G s' → G s ∧ (I l s → I (l + 1) s'))) →
    ∀ s, H s → ∃ s', (List.range m).foldlM f s = some s' ∧ H s' ∧ (G s' → G s ∧ (I 0 s → I m s'))
  | 0, _, s, hs => ⟨s, rfl, hs, fun hG => ⟨hG, id⟩⟩
  | m + 1, hf, s, hs => by
    obtain ⟨s1, h1, hs1, hI1⟩ := counted_loop m (fun l hl => hf l (by omega)) s hs
    obtain ⟨s2, h2, hs2, hI2⟩ := hf m (by omega) s1 hs1
    refine ⟨s2, ?_, hs2, fun hG => ?_⟩
    · simp [range_succ, foldlM_append, h1, h2]
    · obtain ⟨hG1, hstep⟩ := hI2 hG
      exact ⟨(hI1 hG1).1, fun h => hstep ((hI1 hG1).2 h)⟩

end Machine
