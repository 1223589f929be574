/-
# Going over a FAT32 directory

A program lists a directory by calling `fat32_readdir` with the same `dirent` until it returns -1 (`Lists`). At the end
of a cluster the loop reads the 32 bytes behind it, and a zero there ends the listing (`listing_cut_short`). The
listing is complete exactly if the loop gets to the cluster of every file, and every file has a name that can be
listed (`lists_all_iff`).
-/
import WivOS.Fs.Fat32List

namespace WivOS.Fat32

open List Loop Option

/-! ### Listings -/

/-- What the calls with one `dirent` store, from `d_ino` on, until one returns -1. -/
inductive Lists (v : Volume) (c : ℕ) : ℕ → List Dirent → Prop
  | last {ino : ℕ} : Ends (readdirRound v) (readdirStart c ino) none → Lists v c ino []
  | more {ino : ℕ} {e : Dirent} {es : List Dirent} : Ends (readdirRound v) (readdirStart c ino) (some e) →
      Lists v c e.ino es → Lists v c ino (e :: es)

def livePlaces : ℕ → List Entry → List ℕ
  | _, [] => []
  | p, e :: es => if e 0 = 0xE5 ∨ attributeOf e = 0x0F then livePlaces (p + 1) es else p :: livePlaces (p + 1) es

/-- The `d_ino` that stands for entry `p`: its cluster, and the place behind it. -/
def inoOf (v : Volume) (d : Dir) (p : ℕ) : ℕ := d.chain.getD (p / v.slots) 0 * 2 ^ 32 + (p % v.slots + 1) % 2 ^ 32

/-- The listing has these entries, each once and in order. -/
def ListsAll (v : Volume) (c : ℕ) (d : Dir) : Prop :=
  ∃ es, Lists v c 0 es ∧ es.map Dirent.ino = (livePlaces 0 d.slots).map (inoOf v d)

/-! ### The entries of files -/

lemma livePlaces_skip (rest : List Entry) :
    ∀ (es : List Entry) (p : ℕ), (∀ e ∈ es, e 0 = 0xE5 ∨ attributeOf e = 0x0F) →
    livePlaces p (es ++ rest) = livePlaces (p + es.length) rest
  | [], _, _ => rfl
  | e :: es, p, h => by
    rw [cons_append, livePlaces, if_pos (h e mem_cons_self),
      livePlaces_skip rest es (p + 1) fun e' he' => h e' (mem_cons_of_mem e he'), length_cons]
    congr 1
    omega

lemma deleted_of_noFile {items : List Item} (hgood : ∀ item ∈ items, item.Good) (h : noFile items = true) :
    ∀ e ∈ items.flatMap Item.slots, e 0 = 0xE5 ∨ attributeOf e = 0x0F := by
  intro e he
  obtain ⟨item, hitem, hslot⟩ := mem_flatMap.mp he
  cases item with
  | deleted e' =>
    rw [mem_singleton.mp hslot]
    exact .inl (hgood _ hitem)
  | file r =>
    have := all_eq_true.mp h _ hitem
    cases this

lemma livePlaces_file {dels after : List Item} {r : Record} (hgood : ∀ item ∈ dels ++ .file r :: after, item.Good)
    (hdels : noFile dels = true) (p : ℕ) : livePlaces p ((dels ++ .file r :: after).flatMap Item.slots) =
      (p + slotCount dels + r.parts.length) ::
        livePlaces (p + slotCount dels + r.parts.length + 1) (after.flatMap Item.slots) := by
  have hr : r.Good := hgood (.file r) (by simp)
  have hslots : (dels ++ .file r :: after).flatMap Item.slots =
      (dels.flatMap Item.slots ++ r.parts) ++ r.short :: after.flatMap Item.slots := by
    simp [Item.slots]
  have hskip : ∀ e ∈ dels.flatMap Item.slots ++ r.parts, e 0 = 0xE5 ∨ attributeOf e = 0x0F := by
    intro e he
    rcases mem_append.mp he with he | he
    · exact deleted_of_noFile (fun item hitem => hgood item (mem_append_left _ hitem)) hdels e he
    · exact .inr (hr.parts e he).2.2
  have hlive : ¬ (r.short 0 = 0xE5 ∨ attributeOf r.short = 0x0F) := not_or.mpr ⟨hr.kept, hr.ends⟩
  rw [hslots, livePlaces_skip _ _ _ hskip, length_append, ← Nat.add_assoc, livePlaces, if_neg hlive]
  rfl

lemma livePlaces_noFile {items : List Item} (hgood : ∀ item ∈ items, item.Good) (h : noFile items = true) (p : ℕ) :
    livePlaces p (items.flatMap Item.slots) = [] := by
  have hskip := livePlaces_skip [] _ p (deleted_of_noFile hgood h)
  rwa [append_nil] at hskip

lemma first_file : ∀ items : List Item, noFile items = true ∨
    ∃ dels r after, items = dels ++ .file r :: after ∧ noFile dels = true
  | [] => .inl rfl
  | .file r :: rest => .inr ⟨[], r, rest, rfl, rfl⟩
  | .deleted e :: rest => by
    rcases first_file rest with h | ⟨dels, r, after, hrest, hdels⟩
    · exact .inl h
    · exact .inr ⟨.deleted e :: dels, r, after, by rw [hrest]; rfl, hdels⟩

lemma not_noFile {mid after : List Item} {r : Record} : noFile (mid ++ .file r :: after) ≠ true := by
  simp [noFile]

section

variable {v : Volume} {c : ℕ} {d : Dir}

lemma livePlaces_rest {pre dels after : List Item} {r : Record} (hgood : ∀ item ∈ dels ++ .file r :: after, item.Good)
    (hdels : noFile dels = true) : livePlaces (slotCount pre) ((dels ++ .file r :: after).flatMap Item.slots) =
      (slotCount (pre ++ dels) + r.parts.length) ::
        livePlaces (slotCount (pre ++ dels ++ [.file r])) (after.flatMap Item.slots) := by
  rw [livePlaces_file hgood hdels, slotCount_file, slotCount_append]

lemma lists_rest (hd : Stored v c d) (hsectors : v.sectorsPerCluster < 256) (rest pre : List Item) (ino : ℕ)
    (es : List Dirent) (hitems : d.items = pre ++ rest) (h : At v d (slotCount pre) (readdirStart c ino))
    (hlists : Lists v c ino es)
    (hall : es.map Dirent.ino = (livePlaces (slotCount pre) (rest.flatMap Item.slots)).map (inoOf v d))
    (mid : List Item) (r : Record) (after : List Item) (hrest : rest = mid ++ .file r :: after) :
    Reached v d (slotCount (pre ++ mid) + r.parts.length) ∧ r.Named := by
  have hgood : ∀ item ∈ rest, item.Good := fun item hitem => hd.good item
    (by rw [hitems]; exact mem_append_right _ hitem)
  rcases readdir_rest hd rest pre _ hitems h rfl rfl with ⟨dels, r1, after1, hrest1, hdels, hr1, hres⟩ | ⟨-, hres⟩
  · rw [hrest1] at hgood hall
    rw [livePlaces_rest hgood hdels, map_cons] at hall
    cases hlists with
    | last hends => exact absurd ((hres _).mp hends).2 nofun
    | more hends hmore =>
      obtain ⟨hnamed, he⟩ := (hres _).mp hends
      cases he
      rcases file_split (hrest1.symm.trans hrest) hdels with ⟨rfl, rfl, -⟩ | ⟨x, rfl, hafter⟩
      · exact ⟨hr1, hnamed⟩
      · have hitems1 : d.items = (pre ++ dels) ++ .file r1 :: after1 := by rw [hitems, hrest1, append_assoc]
        obtain ⟨hitems2, hat⟩ := listed_next hd hsectors hitems1 hr1
        have hshort : after1.length < rest.length := by
          rw [hrest1, length_append, length_cons]
          omega
        have := lists_rest hd hsectors after1 _ _ _ hitems2 hat hmore (List.cons.inj hall).2 x r after hafter
        simpa using this
  · cases hlists with
    | more hends => exact absurd ((hres _).mp hends) nofun
    | last =>
      rcases first_file rest with hno | ⟨dels, r1, after1, hrest1, hdels⟩
      · rw [hrest] at hno
        exact absurd hno not_noFile
      · rw [hrest1] at hgood hall
        rw [livePlaces_rest hgood hdels] at hall
        cases hall
termination_by rest.length

lemma rest_lists (hd : Stored v c d) (hsectors : v.sectorsPerCluster < 256) (rest pre : List Item) (ino : ℕ)
    (hitems : d.items = pre ++ rest) (h : At v d (slotCount pre) (readdirStart c ino))
    (hfiles : ∀ mid r after, rest = mid ++ .file r :: after → Reached v d (slotCount (pre ++ mid) + r.parts.length) ∧
      r.Named) : ∃ es, Lists v c ino es ∧
      es.map Dirent.ino = (livePlaces (slotCount pre) (rest.flatMap Item.slots)).map (inoOf v d) := by
  have hgood : ∀ item ∈ rest, item.Good := fun item hitem => hd.good item
    (by rw [hitems]; exact mem_append_right _ hitem)
  rcases readdir_rest hd rest pre _ hitems h rfl rfl with ⟨dels, r1, after1, hrest1, hdels, hr1, hres⟩ | ⟨hnone, hres⟩
  · have hends := (hres _).mpr ⟨(hfiles dels r1 after1 hrest1).2, rfl⟩
    have hitems1 : d.items = (pre ++ dels) ++ .file r1 :: after1 := by rw [hitems, hrest1, append_assoc]
    obtain ⟨hitems2, hat⟩ := listed_next hd hsectors hitems1 hr1
    have hshort : after1.length < rest.length := by
      rw [hrest1, length_append, length_cons]
      omega
    obtain ⟨es, hlists, hall⟩ := rest_lists hd hsectors after1 _ _ hitems2 hat fun mid r after hafter => by
      have := hfiles (dels ++ .file r1 :: mid) r after (by rw [hrest1, hafter]; simp)
      simpa using this
    refine ⟨_, .more hends hlists, ?_⟩
    rw [hrest1] at hgood ⊢
    rw [livePlaces_rest hgood hdels, map_cons, map_cons, hall]
    rfl
  · refine ⟨[], .last ((hres _).mpr rfl), ?_⟩
    rcases first_file rest with hno | ⟨dels, r1, after1, hrest1, -⟩
    · rw [livePlaces_noFile hgood hno]
      rfl
    · exact absurd (hfiles dels r1 after1 hrest1).1 (hnone dels r1 after1 hrest1)
termination_by rest.length

end

/-- **The listing is complete** exactly if the loop gets to the cluster of every file: what lies behind
each cluster before it on the disk does not start with a zero byte, and the links have their upper bits clear;
and every file has a name that can be listed. -/
theorem lists_all_iff (v : Volume) (c : ℕ) (d : Dir) (hd : Stored v c d) (hsectors : v.sectorsPerCluster < 256) :
    ListsAll v c d ↔ ∀ mid r after, d.items = mid ++ .file r :: after →
      Reached v d (slotCount mid + r.parts.length) ∧ r.Named := by
  constructor
  · rintro ⟨es, hlists, hall⟩ mid r after hitems
    exact lists_rest hd hsectors d.items [] 0 es rfl (readdirStart_zero hd) hlists hall mid r after hitems
  · intro hfiles
    exact rest_lists hd hsectors d.items [] 0 rfl (readdirStart_zero hd) hfiles

theorem lists_all_iff_docs : ListsAll (smallVolume [.file docsRecord] (docsItems 0x20)) 3 ⟨[3], docsItems 0x20⟩ := by
  have hl := listable_docs
  refine (lists_all_iff _ 3 ⟨[3], docsItems 0x20⟩ hl.stored hl.sectors).mpr fun mid r after hitems => ?_
  refine ⟨reached_small ?_, hl.named (by rw [hitems]; simp)⟩
  have hlen : slotCount (docsItems 0x20) < 16 := by decide
  have hlt := (List.getElem?_eq_some_iff.mp (slot_of_file hitems)).1
  exact Nat.lt_trans hlt hlen

/-! ### A directory of two clusters -/

def oneLetter (c : UInt8) : Record := ⟨none, [], shortEntry [c] 0x20 0⟩

def erased : Entry := fun k => if k = 0 then 0xE5 else 0

/-- Fifteen deleted entries, `A` in the last entry of a cluster, and `B` in the first of the next. -/
def splitItems : List Item := List.replicate 15 (.deleted erased) ++ [.file (oneLetter 65), .file (oneLetter 66)]

/-- The directory is in the clusters 2 and 5, and cluster 3 is empty. -/
def splitVolume : Volume where
  sectorsPerCluster := 1
  beginCluster := 0
  rootDirCluster := 2
  fatLength := 512
  fat := fun x => if x = 2 then 5 else 0x0FFFFFFF
  disk := fun k => if k < 15 then erased else if k = 15 then (oneLetter 65).short
    else if k = 48 then (oneLetter 66).short else fun _ => 0

lemma splitItems_good : ∀ item ∈ splitItems, item.Good := by
  have hletter : ∀ c : UInt8, c ≠ 0 → c ≠ 0xE5 → (oneLetter c).Good := fun c h0 hE5 =>
    ⟨fun _ => rfl, (fun s hs => by cases hs), h0, hE5, (by decide : (0x20 : UInt8) ≠ 0x0F)⟩
  intro item hitem
  rcases mem_append.mp hitem with h | h
  · rw [eq_of_mem_replicate h]
    exact (rfl : erased 0 = 0xE5)
  · rcases mem_cons.mp h with rfl | h
    · exact hletter 65 (by decide) (by decide)
    · rw [mem_singleton.mp h]
      exact hletter 66 (by decide) (by decide)

lemma splitDir_slots : (⟨[2, 5], splitItems⟩ : Dir).slots =
    List.replicate 15 erased ++ [(oneLetter 65).short, (oneLetter 66).short] := rfl

lemma stored_split : Stored splitVolume 2 ⟨[2, 5], splitItems⟩ := by
  refine ⟨by decide, rfl, by decide, fun t x y hx hy => ?_, fun t x hx hy => ?_, fun p e he => ?_, fun x hx => ?_,
    splitItems_good⟩
  · cases t with
    | zero =>
      cases hx
      cases hy
      rfl
    | succ t => cases t <;> cases hy
  · cases t with
    | zero => cases hy
    | succ t =>
      cases t with
      | zero =>
        cases hx
        decide
      | succ t => cases hx
  · rw [splitDir_slots] at he
    have hp : p < 17 := (List.getElem?_eq_some_iff.mp he).1
    have hslots : splitVolume.slots = 16 := rfl
    rw [hslots]
    rcases Nat.lt_or_ge p 15 with hlt | hge
    · rw [getElem?_append_left (by rw [length_replicate]; exact hlt), getElem?_replicate, if_pos hlt] at he
      cases he
      refine ⟨2, by rw [Nat.div_eq_of_lt (by omega)]; rfl, ?_⟩
      have haddr : splitVolume.address 2 (p % 16) = p := by
        rw [Nat.mod_eq_of_lt (by omega)]
        simp [Volume.address, splitVolume]
      rw [haddr]
      exact if_pos hlt
    · obtain rfl | rfl : p = 15 ∨ p = 16 := by omega
      · cases he
        exact ⟨2, rfl, rfl⟩
      · cases he
        exact ⟨5, rfl, rfl⟩
  · cases hx
    rfl

/-- **A listing that is cut short.** The first call stores `A`; the next one reads the first bytes of
cluster 3, which are zero, and returns -1. `B` is not listed. -/
theorem listing_cut_short : Stored splitVolume 2 ⟨[2, 5], splitItems⟩ ∧
    livePlaces 0 (⟨[2, 5], splitItems⟩ : Dir).slots = [15, 16] ∧
    (∃ e, Lists splitVolume 2 0 [e] ∧ e.ino = inoOf splitVolume ⟨[2, 5], splitItems⟩ 15) ∧
    ¬ ListsAll splitVolume 2 ⟨[2, 5], splitItems⟩ := by
  have hlive : livePlaces 0 (⟨[2, 5], splitItems⟩ : Dir).slots = [15, 16] := by decide +kernel
  have hfirst : (run (readdirRound splitVolume) 16 (readdirStart 2 0)).map (Option.map Dirent.ino) =
      some (some (2 * 2 ^ 32 + 16)) := by decide +kernel
  have hsecond : (run (readdirRound splitVolume) 1 (readdirStart 2 (2 * 2 ^ 32 + 16))).map Option.isNone =
    some true := by
    decide +kernel
  obtain ⟨res, hres, hino⟩ := map_eq_some_iff.mp hfirst
  obtain ⟨e, rfl, he⟩ := map_eq_some_iff.mp hino
  obtain ⟨res', hres', hnone⟩ := map_eq_some_iff.mp hsecond
  rw [isNone_iff_eq_none.mp hnone] at hres'
  have hend : Ends (readdirRound splitVolume) (readdirStart 2 e.ino) none := ⟨1, he ▸ hres'⟩
  refine ⟨stored_split, hlive, ⟨e, .more ⟨16, hres⟩ (.last hend), he⟩, ?_⟩
  rintro ⟨es, hlists, hall⟩
  rw [hlive] at hall
  cases hlists with
  | last h => cases hall
  | more hfirst hrest =>
    obtain rfl := some.inj (hfirst.unique ⟨16, hres⟩)
    cases hrest with
    | last h => cases (List.cons.inj hall).2
    | more hsecond _ => cases hsecond.unique hend

end WivOS.Fat32
