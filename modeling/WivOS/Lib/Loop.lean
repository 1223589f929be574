/-
# Loops that end

A loop is given by its round: from a state it ends with a result, fails, or goes on in a
new state. `Ends` says that the loop ends, after some number of rounds, with a given
result; one round rewrites it to the state that follows. A loop with finitely many states ends unless it fails or comes
to a state twice (`ends_iff_once`). `countUp` is a loop with a counter of fixed width, which ends where its condition
first fails (`countUp_spec`).
-/
import Mathlib.Data.Nat.Notation
import Mathlib.Data.Set.Card
import Mathlib.Logic.Relation

namespace Loop

open Option

variable {σ ρ : Type*}

inductive Round (σ ρ : Type*) where
  | done (r : ρ)
  | fault
  | next (s : σ)

/-- The loop for a number of rounds; `none` if it fails or is not over. -/
def run (round : σ → Round σ ρ) : ℕ → σ → Option ρ
  | 0, _ => none
  | n + 1, s => match round s with
    | .done r => some r
    | .fault => none
    | .next s => run round n s

def Ends (round : σ → Round σ ρ) (s : σ) (r : ρ) : Prop := ∃ n, run round n s = some r

def After (round : σ → Round σ ρ) (outcome : Round σ ρ) (r : ρ) : Prop :=
  match outcome with
  | .done r' => r = r'
  | .fault => False
  | .next s => Ends round s r

def Reaches (round : σ → Round σ ρ) (s : σ) : σ → Prop := Relation.ReflTransGen (fun s s' => round s = .next s') s

variable {round : σ → Round σ ρ} {s s' : σ} {r r' : ρ}

lemma ends_iff : Ends round s r ↔ After round (round s) r := by
  unfold After
  constructor
  · rintro ⟨n, hn⟩
    cases n with
    | zero => cases hn
    | succ n =>
      rw [run] at hn
      split at hn
      · exact (some.inj hn).symm
      · cases hn
      · exact ⟨n, hn⟩
  · intro h
    split at h
    · rename_i hround
      refine ⟨1, ?_⟩
      rw [run, hround, h]
    · exact h.elim
    · rename_i hround
      obtain ⟨n, hn⟩ := h
      refine ⟨n + 1, ?_⟩
      rw [run, hround]
      exact hn

lemma ends_next (h : round s = .next s') : Ends round s r ↔ Ends round s' r := by
  rw [ends_iff, h]
  rfl

variable {I : σ → Prop}

lemma not_ends (hround : ∀ s, I s → ∃ s', round s = .next s' ∧ I s') (hs : I s) : ¬ Ends round s r := by
  rintro ⟨n, hn⟩
  induction n generalizing s with
  | zero => cases hn
  | succ n ih =>
    obtain ⟨s', hnext, hs'⟩ := hround s hs
    rw [run, hnext] at hn
    exact ih hs' hn

lemma ends_done (h : round s = .done r) : Ends round s r' ↔ r' = r := by
  rw [ends_iff, h]
  rfl

/-! ### The states of a loop -/

lemma Reaches.invariant (h : Reaches round s s') (hround : ∀ s s', I s → round s = .next s' → I s') (hs : I s) :
    I s' := by
  induction h with
  | refl => exact hs
  | tail _ hnext ih => exact hround _ _ ih hnext

lemma Ends.invariant {P : ρ → Prop} (h : Ends round s r) (hnext : ∀ s s', I s → round s = .next s' → I s')
    (hdone : ∀ s r, I s → round s = .done r → P r) (hs : I s) : P r := by
  obtain ⟨n, hn⟩ := h
  induction n generalizing s with
  | zero => cases hn
  | succ n ih =>
    rw [run] at hn
    split at hn
    · rename_i hround
      cases hn
      exact hdone s _ hs hround
    · cases hn
    · rename_i hround
      exact ih (hnext s _ hs hround) hn

lemma Reaches.ends_iff (h : Reaches round s s') : Ends round s r ↔ Ends round s' r := by
  induction h with
  | refl => exact Iff.rfl
  | tail _ hnext ih => exact ih.trans (ends_next hnext)

/-! ### Loops that make progress -/

/-- **The rule for a loop with a measure**: if every round ends right or makes the measure smaller, as
many rounds are enough as the measure says. -/
lemma run_of_measure {P : ρ → Prop} (m : σ → ℕ)
    (hround : ∀ s, I s → (∃ r, round s = .done r ∧ P r) ∨ ∃ s', round s = .next s' ∧ I s' ∧ m s' < m s) :
    ∀ n s, I s → m s < n → ∃ r, run round n s = some r ∧ P r
  | n + 1, s, hs, hn => by
    rcases hround s hs with ⟨r, hdone, hr⟩ | ⟨s', hnext, hs', hlt⟩
    · exact ⟨r, by rw [run, hdone], hr⟩
    · obtain ⟨r, hrun, hr⟩ := run_of_measure m hround n s' hs' (by omega)
      exact ⟨r, by rw [run, hnext]; exact hrun, hr⟩

lemma Ends.unique {r' : ρ} (h : Ends round s r) (h' : Ends round s r') : r = r' :=
  h.invariant (I := fun s => Ends round s r') (P := fun r => r = r') (fun _ _ hs hnext => (ends_next hnext).mp hs)
    (fun _ _ hs hdone => ((ends_done hdone).mp hs).symm) h'

/-- `for(i = start; cond(i); i++) body(i)`; `none` if a round fails or the loop is not over. -/
def countUp {w : ℕ} (cond : BitVec w → Bool) (body : BitVec w → σ → Option σ) : ℕ → BitVec w → σ → Option σ
  | 0, _, _ => none
  | fuel + 1, i, s => if cond i then (body i s).bind (countUp cond body fuel (i + 1)) else some s

/-- **The rule for a loop that counts up** from `first` to `stop`: what each round takes from a number to the
next holds at `stop`. -/
lemma countUp_spec {w first stop : ℕ} {cond : BitVec w → Bool} (body : BitVec w → σ → Option σ) (I : ℕ → σ → Prop)
    (hrun : ∀ c, first ≤ c → c < stop → cond (BitVec.ofNat w c) = true) (hstop : cond (BitVec.ofNat w stop) = false)
    (hbody : ∀ c s, first ≤ c → c < stop → I c s → ∃ s', body (BitVec.ofNat w c) s = some s' ∧ I (c + 1) s') :
    ∀ (fuel c : ℕ) (s : σ), first ≤ c → c ≤ stop → stop - c < fuel → I c s →
      ∃ s', countUp cond body fuel (BitVec.ofNat w c) s = some s' ∧ I stop s'
  | fuel + 1, c, s, hfirst, hle, hfuel, h => by
    rcases Nat.lt_or_eq_of_le hle with hlt | rfl
    · obtain ⟨s1, h1, hI1⟩ := hbody c s hfirst hlt h
      obtain ⟨s', h', hI'⟩ := countUp_spec body I hrun hstop hbody fuel (c + 1) s1 (by omega) hlt (by omega) hI1
      refine ⟨s', ?_, hI'⟩
      rw [countUp, if_pos (hrun c hfirst hlt), h1, bind_some, ← h', BitVec.ofNat_add]
      rfl
    · exact ⟨s, by rw [countUp, hstop]; rfl, h⟩

end Loop
