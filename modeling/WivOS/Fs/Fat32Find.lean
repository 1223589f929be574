/-
# Finding a path on a FAT32 volume

What `fat32_finddir` finds, against what the path of long names denotes. The loop stops at the first file it reaches
that answers to the name and, at the end of the path, has its archive bit set or is a directory. So a file is not found
behind a cluster that the loop cannot leave, without its archive bit, with a name that fills its parts, or behind a
file without a long name that answers before it (`file_not_found`, `finddir_finds_path`).
-/
import Mathlib.Data.List.Nodup
import Mathlib.Data.Nat.Find
import WivOS.Fs.Fat32Dir

namespace WivOS.Fat32

open List Loop Option

/-! ### What a path denotes -/

def isDirectory (e : Entry) : Prop := attributeOf e &&& 0x10 ≠ 0

def hasArchive (e : Entry) : Prop := attributeOf e &&& 0x20 ≠ 0

instance (e : Entry) : Decidable (isDirectory e) := inferInstanceAs (Decidable (_ ≠ _))

instance (e : Entry) : Decidable (hasArchive e) := inferInstanceAs (Decidable (_ ≠ _))

def lookup (items : List Item) (n : Bytes) : Option Record :=
  items.findSome? fun
    | .deleted _ => none
    | .file r => if r.long = some n then some r else none

open Record

def files (items : List Item) : List Record :=
  items.filterMap fun
    | .deleted _ => none
    | .file r => some r

/-- A volume and its directories, by their first cluster. Names are unique in a directory;
a directory other than the root starts with its own entry `.`, which has no long name. -/
structure WellFormed (v : Volume) (dirs : ℕ → Option Dir) : Prop where
  root : ∃ d, dirs v.rootDirCluster = some d
  stored : ∀ c d, dirs c = some d → Stored v c d
  longs : ∀ c d, dirs c = some d → ((files d.items).filterMap long).Nodup
  shorts : ∀ c d, dirs c = some d → ((files d.items).map fun r => (List.range 11).map r.short).Nodup
  below : ∀ c d r s, dirs c = some d → r ∈ files d.items → r.long = some s → isDirectory r.short →
    ∃ d' r' rest, dirs (firstCluster r.short) = some d' ∧ d'.items = .file r' :: rest ∧ r'.long = none ∧ r'.parts = []

/-! ### Where the loop stops -/

/-- The loop takes the file for `n`. In a buffer that was never written, a name is not
recognised unless it is terminated. -/
def Record.Answers (r : Record) (fresh : Bool) (n : Bytes) : Prop :=
  match r.long with
  | none => shortEq r.short n = true
  | some s => s = n ∧ (fresh = true → Terminated s)

def Record.Counts (r : Record) (last : Bool) : Prop := isDirectory r.short ∨ (last = true ∧ hasArchive r.short)

variable {r : Record} {n s : Bytes} {items root docs : List Item} {attr : UInt8} {st : NameBuffer × Bool}
  {p : List Bytes} {e : Entry}

lemma Record.Good.isMatch (hg : r.Good) {fresh : Bool}
    (hcol : Fat32.collect r.parts (blank fresh, false) = some st) (hn : 0 ∉ n) :
    (if st.2 then nameEq st.1 n else shortEq r.short n) = true ↔ r.Answers fresh n := by
  obtain ⟨st', hcol', hnone, hsome⟩ := hg.collect (blank fresh)
  rw [hcol] at hcol'
  cases hcol'
  unfold Answers
  cases hlong : r.long with
  | none =>
    rw [hnone hlong]
    rfl
  | some s =>
    have hC := hsome s hlong
    have hL := hg.named s hlong
    rw [hC.ready, if_pos rfl]
    dsimp only
    by_cases hterm : Terminated s ∨ blank fresh s.length = some 0
    · rw [(hC.spells hL.nonempty hterm).nameEq hL.clean hn]
      refine ⟨fun h => ⟨h.symm, fun hfresh => ?_⟩, fun h => h.1.symm⟩
      rcases hterm with hterm | hblank
      · exact hterm
      · rw [hfresh] at hblank
        cases hblank
    · -- only the buffer of the first name is not cleared
      have hfresh : fresh = true := by
        cases fresh with
        | true => rfl
        | false => exact absurd (Or.inr rfl) hterm
      subst hfresh
      have hnot : ¬ Terminated s := fun h => hterm (Or.inl h)
      obtain ⟨hchars, hend⟩ := hC.unspelled hL.nonempty hnot
      refine ⟨fun h => ?_, fun h => absurd (h.2 rfl) hnot⟩
      rw [nameEq_iff] at h
      by_cases hlen : s.length < n.length + 1
      · have hlt : s.length < (n ++ [0]).length := by
          rw [length_append]
          exact hlen
        have hb := h s.length _ (getElem?_eq_getElem hlt)
        rw [hend] at hb
        cases hb
      · have hb := h n.length 0 (by rw [getElem?_append_right (Nat.le_refl _), Nat.sub_self]; rfl)
        rw [hchars n.length (by omega)] at hb
        exact absurd (mem_of_getElem? hb) hL.clean

lemma takeWhile_slash (hn : slash ∉ n) (rest : Bytes) :
    (n ++ slash :: rest).takeWhile (· ≠ slash) = n ∧ ((n ++ slash :: rest).dropWhile (· ≠ slash)).tail = rest := by
  have hall : ∀ x ∈ n, decide (x ≠ slash) = true := fun x hx => decide_eq_true fun he => hn (he ▸ hx)
  constructor
  · rw [takeWhile_append_of_pos hall]
    simp
  · rw [dropWhile_append_of_pos hall]
    simp

lemma takeWhile_name (hn : slash ∉ n) : n.takeWhile (· ≠ slash) = n :=
  takeWhile_eq_self_iff.mpr fun _ hx => decide_eq_true fun he => hn (he ▸ hx)

def codeNode (e : Entry) : Node := if hasArchive e then ⟨e, false, none⟩ else ⟨e, true, some (firstCluster e)⟩

def pathFrom (n : Bytes) : Option Bytes → Bytes
  | none => n
  | some rest => n ++ slash :: rest

def stopAt (e : Entry) : Option Bytes → Round Cursor (Option Node)
  | none => .done (some (codeNode e))
  | some rest => .next ⟨firstCluster e, 1, rest, zeroName, false⟩

lemma finddirShort_at (hg : r.Good) {fresh : Bool} (hn : 0 ∉ n) (hslash : slash ∉ n)
    (rest : Option Bytes) (hcol : collect r.parts (blank fresh, false) = some st) {s : Cursor}
    (hpath : s.path = pathFrom n rest) (hst : (s.name, s.ready) = st) :
    (r.Answers fresh n ∧ r.Counts rest.isNone → finddirShort s r.short = stopAt r.short rest) ∧
    (¬ (r.Answers fresh n ∧ r.Counts rest.isNone) →
      finddirShort s r.short = .next { s with i := s.i + 1, name := zeroName, ready := false }) := by
  have hmatch := hg.isMatch hcol hn
  rw [← hst] at hmatch
  dsimp only at hmatch
  cases rest with
  | none =>
    have hfile : n.contains slash = false := by simpa using hslash
    simp only [finddirShort, hpath, pathFrom, takeWhile_name hslash, hfile, Bool.not_false, true_and, Bool.not_true,
      Bool.false_eq_true, false_and, and_false, if_false]
    constructor
    · rintro ⟨hans, hdir | ⟨-, harch⟩⟩
      · unfold stopAt codeNode
        by_cases harch : hasArchive r.short
        · rw [if_pos ⟨harch, hmatch.mpr hans⟩, if_pos harch]
        · rw [if_neg (fun h => harch h.1), if_pos ⟨hdir, hmatch.mpr hans⟩, if_neg harch]
      · rw [if_pos ⟨harch, hmatch.mpr hans⟩, stopAt, codeNode, if_pos harch]
    · intro hnot
      rw [if_neg (fun h => hnot ⟨hmatch.mp h.2, Or.inr ⟨rfl, h.1⟩⟩), if_neg (fun h => hnot ⟨hmatch.mp h.2, Or.inl h.1⟩)]
  | some rest =>
    obtain ⟨htake, hdrop⟩ := takeWhile_slash hslash rest
    have hfile : (n ++ slash :: rest).contains slash = true := by simp
    simp only [finddirShort, hpath, pathFrom, htake, hdrop, hfile, Bool.not_true, Bool.false_eq_true, false_and,
      and_false,
      if_false, Bool.not_false, true_and]
    constructor
    · rintro ⟨hans, hdir | ⟨hfalse, -⟩⟩
      · rw [if_pos ⟨hdir, hmatch.mpr hans⟩, stopAt]
      · cases hfalse
    · intro hnot
      rw [if_neg (fun h => hnot ⟨hmatch.mp h.2, Or.inl h.1⟩)]

/-! ### One directory -/

structure Starts (v : Volume) (d : Dir) (pre : List Item) (fresh : Bool) (path : Bytes) (s : Cursor) : Prop where
  position : At v d (slotCount pre) s
  path : s.path = path
  ready : s.ready = false
  name : s.name = blank fresh

/-- File `r` behind the items `mid` is the first that answers to the name and counts, and
it is reached. -/
structure Found (v : Volume) (d : Dir) (pre : List Item) (fresh last : Bool) (n : Bytes) (mid : List Item)
    (r : Record) :
    Prop where
  reached : Reached v d (slotCount (pre ++ mid) + r.parts.length)
  answers : r.Answers (fresh && noFile mid) n
  counts : r.Counts last
  first : ∀ before r' after, mid = before ++ .file r' :: after →
    ¬ (r'.Answers (fresh && noFile before) n ∧ r'.Counts last)

/-- No file that is reached answers to the name and counts. -/
def Missing (v : Volume) (d : Dir) (pre : List Item) (fresh last : Bool) (n : Bytes) : Prop :=
  ∀ mid r after, d.items = pre ++ (mid ++ .file r :: after) → r.Answers (fresh && noFile mid) n → r.Counts last →
    ¬ Reached v d (slotCount (pre ++ mid) + r.parts.length)

section

variable {v : Volume} {c : ℕ} {d : Dir} {pre mid after : List Item} {fresh : Bool} {n : Bytes}
  {r : Record} {s : Cursor}

section

variable (rest : Option Bytes) (hd : Stored v c d)
include rest hd

lemma passedBy_finddir (hmem : .file r ∈ d.items) (hn : 0 ∉ n) (hslash : slash ∉ n)
    (hnot : ¬ (r.Answers fresh n ∧ r.Counts rest.isNone)) : PassedBy finddirShort (pathFrom n rest) fresh r :=
  fun _ _ hcol hpath hst => (finddirShort_at (hd.good _ hmem) hn hslash rest hcol hpath hst).2 hnot

/-- **In a directory with a first file that answers and counts** the loop stops there. -/
lemma scan_found (hs : Starts v d pre fresh (pathFrom n rest) s) (hn : 0 ∉ n)
    (hslash : slash ∉ n) (hitems : d.items = pre ++ (mid ++ .file r :: after))
    (hf : Found v d pre fresh rest.isNone n mid r)
    (res : Option Node) : Ends (finddirRound v) s res ↔ After (finddirRound v) (stopAt r.short rest) res := by
  obtain ⟨s1, h1, hpath1, hready1, hname1, hends1⟩ :=
    pass_items (fun _ => Or.inl rfl) hd mid pre (.file r :: after) fresh s
    hitems hs.position hs.ready hs.name (fun before r' after' hmid => by
      rw [hs.path]
      exact passedBy_finddir rest hd (by rw [hitems, hmid]; simp) hn hslash (hf.first before r' after' hmid))
    (hf.reached.mono (Nat.le_add_right _ _))
  have hg : r.Good := hd.good (.file r) (by rw [hitems]; simp)
  obtain ⟨st, hcol, -, -⟩ := hg.collect (blank (fresh && noFile mid))
  have hitems' : d.items = (pre ++ mid) ++ .file r :: after := by rw [hitems, append_assoc]
  obtain ⟨s2, -, hpath2, hst2, hends2⟩ :=
    (h1.file (fun _ => Or.inl rfl) hd hg (slots_drop_file hitems') (by rw [hname1, hready1]; exact hcol)).1 hf.reached
  rw [finddirRound, hends1 res, hends2 res,
    (finddirShort_at hg hn hslash rest hcol (hpath2.trans (hpath1.trans hs.path)) hst2).1 ⟨hf.answers, hf.counts⟩]

end

end

/-! ### Files without a long name -/

/-- The entry has the name `n` as its short one, in any case. -/
def HasName (e : Entry) (n : Bytes) : Prop :=
  ∃ base ext, (List.range 11).map e = padded 8 base ++ padded 3 ext ∧
    n.map upper = base ++ (if ext = [] then [] else dot :: ext)

/-- The short name is the first eight characters of a name that is longer. -/
def Truncates (e : Entry) (n : Bytes) : Prop :=
  8 < n.length ∧ (List.range 11).map e = padded 11 ((n.take 8).map upper)

lemma map_upper_padded (w : ℕ) (s : Bytes) : (padded w s).map upper = padded w (s.map upper) := by
  rw [padded, padded, map_append, map_replicate, length_map]
  rfl

lemma padded_blank (h : s.length ≤ 8) : padded 11 s = padded 8 s ++ padded 3 [] := by
  have hsplit : 11 - s.length = (8 - s.length) + 3 := by omega
  rw [padded, padded, hsplit, ← replicate_append_replicate, append_assoc]
  rfl

lemma shortEq_truncates (h : ¬ HasName e n) : shortEq e n = true ↔ Truncates e n := by
  rw [shortEq_iff, map_upper_padded]
  refine ⟨fun he => ⟨?_, he⟩, fun ht => ht.2⟩
  by_contra hlen
  refine h ⟨n.map upper, [], ?_, by simp⟩
  rw [he, take_of_length_le (by omega)]
  exact padded_blank (by rw [length_map]; omega)

/-- The loop gets from the items `pre` to the file `r` of the name `n` behind `mid`, and takes
it for what it is. -/
structure Clear (v : Volume) (d : Dir) (pre : List Item) (fresh last : Bool) (n : Bytes) (mid : List Item)
    (r : Record) :
    Prop where
  reached : Reached v d (slotCount (pre ++ mid) + r.parts.length)
  terminated : (fresh && noFile mid) = true → Terminated n
  archive : last = true → (hasArchive r.short ↔ ¬ isDirectory r.short)
  unshadowed : ∀ r', .file r' ∈ mid → r'.long = none → r'.Counts last → ¬ Truncates r'.short n

def Absent (v : Volume) (d : Dir) (pre : List Item) (last : Bool) (n : Bytes) : Prop :=
  ∀ mid r after, d.items = pre ++ (mid ++ .file r :: after) → r.long = none → r.Counts last → Truncates r.short n →
    ¬ Reached v d (slotCount (pre ++ mid) + r.parts.length)

def target (last : Bool) (items : List Item) (n : Bytes) : Option Record :=
  (lookup items n).filter fun r => last || isDirectory r.short

lemma lookup_spec (h : lookup items n = some r) :
    r.long = some n ∧ ∃ mid after, items = mid ++ .file r :: after ∧ ∀ r', .file r' ∈ mid → r'.long ≠ some n := by
  obtain ⟨mid, item, after, hitems, hitem, hmid⟩ := findSome?_eq_some_iff.mp h
  cases item with
  | deleted e => cases hitem
  | file r1 =>
    dsimp only at hitem
    split at hitem
    · rename_i hlong
      cases hitem
      refine ⟨hlong, mid, after, hitems, fun r' hr' hl => ?_⟩
      have hnone := hmid _ hr'
      simp [hl] at hnone
    · cases hitem

lemma lookup_none (h : lookup items n = none) (hr : .file r ∈ items) : r.long ≠ some n := by
  intro hl
  have hnone := findSome?_eq_none_iff.mp h _ hr
  simp [hl] at hnone

lemma mem_files : r ∈ files items ↔ .file r ∈ items := by
  rw [files, mem_filterMap]
  constructor
  · rintro ⟨item, hmem, hitem⟩
    cases item with
    | deleted e => cases hitem
    | file r' =>
      cases hitem
      exact hmem
  · intro h
    exact ⟨_, h, rfl⟩

section

variable (hlongs : ((files items).filterMap long).Nodup)
include hlongs

lemma long_unique :
    (files items).Pairwise fun r r' => r.long = some n → r'.long ≠ some n := by
  rw [List.Nodup, pairwise_filterMap] at hlongs
  exact hlongs.imp fun h hr hr' => h n hr n hr' rfl

lemma long_before {mid after : List Item} {r' : Record}
    (hitems : items = mid ++ .file r :: after) (hr : r.long = some n) (hr' : .file r' ∈ mid) : r'.long ≠ some n := by
  intro hl
  have hpair := long_unique (n := n) hlongs
  rw [hitems, files, filterMap_append, pairwise_append] at hpair
  exact hpair.2.2 r' (mem_files.mpr hr') r (mem_files.mpr mem_cons_self) hl hr

lemma lookup_eq (hmem : .file r ∈ items)
    (hr : r.long = some n) : lookup items n = some r := by
  cases hlook : lookup items n with
  | none => exact absurd hr (lookup_none hlook hmem)
  | some r0 =>
    obtain ⟨hr0, mid, after, hitems, hmid⟩ := lookup_spec hlook
    rw [hitems] at hmem
    rcases mem_append.mp hmem with h | h
    · exact absurd hr (hmid r h)
    · rcases mem_cons.mp h with h | h
      · cases h
        rfl
      · -- the one that is found would come before
        obtain ⟨u, w, hu⟩ := append_of_mem h
        have hsplit : items = (mid ++ .file r0 :: u) ++ .file r :: w := by
          rw [hitems, hu]
          simp
        exact absurd hr0 (long_before hlongs hsplit hr (by simp))

end

section

variable {v : Volume} {d : Dir} {pre mid after : List Item} {fresh last : Bool} {n : Bytes} {r : Record}

section

variable (hlongs : ((files d.items).filterMap long).Nodup)
  (hshort : ∀ r' ∈ files d.items, r'.long = none → ¬ HasName r'.short n)
  (hitems : d.items = pre ++ (mid ++ .file r :: after)) (hlong : r.long = some n)
include hlongs hshort hitems hlong

lemma first_of_unshadowed
    (h : ∀ r', .file r' ∈ mid → r'.long = none → r'.Counts last → ¬ Truncates r'.short n) (before : List Item)
    (r' : Record) (after' : List Item) (hmid : mid = before ++ .file r' :: after') :
    ¬ (r'.Answers (fresh && noFile before) n ∧ r'.Counts last) := by
  rintro ⟨hans, hcounts⟩
  have hmem : .file r' ∈ mid := by
    rw [hmid]
    simp
  rw [Answers] at hans
  cases hl : r'.long with
  | none =>
    rw [hl] at hans
    have hmem' : r' ∈ files d.items := mem_files.mpr (by rw [hitems]; simp [hmem])
    exact h r' hmem hl hcounts ((shortEq_truncates (hshort r' hmem' hl)).mp hans)
  | some s =>
    rw [hl] at hans
    have hsplit : d.items = (pre ++ mid) ++ .file r :: after := by rw [hitems, append_assoc]
    refine long_before hlongs hsplit hlong (mem_append_right _ hmem) ?_
    rw [hl, hans.1]

lemma Clear.found
    (hdir : last = false → isDirectory r.short) (h : Clear v d pre fresh last n mid r) :
    Found v d pre fresh last n mid r := by
  refine ⟨h.reached, ?_, ?_, first_of_unshadowed hlongs hshort hitems hlong h.unshadowed⟩
  · rw [Answers, hlong]
    exact ⟨rfl, h.terminated⟩
  · cases last with
    | false => exact Or.inl (hdir rfl)
    | true =>
      by_cases hd : isDirectory r.short
      · exact Or.inl hd
      · exact Or.inr ⟨rfl, (h.archive rfl).mpr hd⟩

end

lemma Found.unshadowed (h : Found v d pre fresh last n mid r) (r' : Record) (hmem : .file r' ∈ mid)
    (hl : r'.long = none) (hcounts : r'.Counts last) : ¬ Truncates r'.short n := by
  intro htr
  obtain ⟨before, after', hmid⟩ := append_of_mem hmem
  refine h.first before r' after' hmid ⟨?_, hcounts⟩
  rw [Answers, hl]
  exact (shortEq_iff _ _).mpr (by rw [map_upper_padded]; exact htr.2)

lemma Found.clear (hlong : r.long = some n) (harch : last = true → hasArchive r.short → ¬ isDirectory r.short)
    (h : Found v d pre fresh last n mid r) : Clear v d pre fresh last n mid r := by
  have hans := h.answers
  rw [Answers, hlong] at hans
  refine ⟨h.reached, hans.2, fun hlast => ⟨harch hlast, fun hd => ?_⟩, h.unshadowed⟩
  rcases h.counts with hdir | ⟨-, ha⟩
  · exact absurd hdir hd
  · exact ha

lemma Absent.missing (hlongs : ((files d.items).filterMap long).Nodup)
    (hshort : ∀ r' ∈ files d.items, r'.long = none → ¬ HasName r'.short n) (hnone : target last d.items n = none)
    (h : Absent v d pre last n) : Missing v d pre fresh last n := by
  intro mid r after hitems hans hcounts
  have hmem : .file r ∈ d.items := by
    rw [hitems]
    simp
  rw [Answers] at hans
  cases hl : r.long with
  | none =>
    rw [hl] at hans
    exact h mid r after hitems hl hcounts ((shortEq_truncates (hshort r (mem_files.mpr hmem) hl)).mp hans)
  | some s =>
    rw [hl] at hans
    rw [hans.1] at hl
    -- the file of the name is not one that counts
    rw [target, lookup_eq hlongs hmem hl] at hnone
    rcases hcounts with hdir | ⟨hlast, -⟩
    · simp [hdir] at hnone
    · simp [hlast] at hnone

lemma Missing.absent (h : Missing v d pre fresh last n) : Absent v d pre last n := by
  intro mid r after hitems hl hcounts htr
  refine h mid r after hitems ?_ hcounts
  rw [Answers, hl]
  exact (shortEq_iff _ _).mpr (by rw [map_upper_padded]; exact htr.2)

end

/-! ### Paths -/

section

variable {v : Volume} {dirs : ℕ → Option Dir} {c : ℕ} {d : Dir} {sub : Bool} {n : Bytes} {s : Cursor}

end

def longEntry (order : UInt8) (chars : ℕ → UInt8) : Entry := fun k =>
  if k = 0 then order else if k = 11 then 0x0F else ((partOffsets.idxOf? k).map chars).getD 0

def longEntries (s : Bytes) : List Entry := (List.range (partCount s)).map fun j =>
  longEntry (UInt8.ofNat (partCount s - j) ||| (if j = 0 then 0x40 else 0)) fun k =>
    filled s (13 * (partCount s - j - 1) + k)

lemma partChars_longEntry (order : UInt8) (chars : ℕ → UInt8) :
    partChars (longEntry order chars) = (List.range 13).map chars :=
  rfl

lemma longName_longEntries (hne : s ≠ []) (hlen : s.length ≤ 255) (hclean : 0 ∉ s) : LongName s (longEntries s) := by
  have hget : ∀ j e, (longEntries s)[j]? = some e →
    e = longEntry (UInt8.ofNat (partCount s - j) ||| (if j = 0 then 0x40 else 0))
      fun k => filled s (13 * (partCount s - j - 1) + k) := by
    intro j e hj
    rw [longEntries, getElem?_map, map_eq_some_iff] at hj
    obtain ⟨a, ha, rfl⟩ := hj
    obtain ⟨hlt, hval⟩ := List.getElem?_eq_some_iff.mp ha
    rw [getElem_range] at hval
    rw [hval]
  refine ⟨hne, hlen, hclean, by simp [longEntries], fun j e hj => ?_, fun e he => ?_, fun j e hj k hk => ?_⟩
  · rw [hget j e hj]
    rfl
  · obtain ⟨j, hj⟩ := mem_iff_getElem?.mp he
    rw [hget j e hj]
    rfl
  · rw [hget j e hj, partChars_longEntry, getElem?_map, getElem?_range hk]
    rfl

def smallVolume (root docs : List Item) : Volume where
  sectorsPerCluster := 1
  beginCluster := 0
  rootDirCluster := 2
  fatLength := 512
  fat := fun _ => 0x0FFFFFFF
  disk := fun k => if k < 16 then (root.flatMap Item.slots).getD k (fun _ => 0)
    else (docs.flatMap Item.slots).getD (k - 16) (fun _ => 0)

lemma stored_one {v : Volume} {c : ℕ} (hsize : 0 < v.sectorsPerCluster)
    (hvalid : 2 ≤ c ∧ c < 0x0FFFFFF8 ∧ c < v.fatLength / 4) (hlast : 0x0FFFFFF8 ≤ v.fat c % 2 ^ 28)
    (hlen : slotCount items < v.slots) (hgood : ∀ item ∈ items, item.Good)
    (hdisk : ∀ i < v.slots, v.disk (v.address c i) = (items.flatMap Item.slots).getD i (fun _ => 0)) :
    Stored v c ⟨[c], items⟩ := by
  have hzero : ∀ i, i < v.slots → i / v.slots = 0 ∧ i % v.slots = i :=
    fun i hi => ⟨Nat.div_eq_of_lt hi, Nat.mod_eq_of_lt hi⟩
  refine ⟨hsize, rfl, fun x hx => ?_, fun t x y hx hy => ?_, fun t x hx _ => ?_, fun i e he => ?_,
    fun x hx => ?_, hgood⟩
  · rw [mem_singleton.mp hx]
    exact hvalid
  · simp at hy
  · rw [mem_singleton.mp (mem_of_getElem? hx)]
    exact hlast
  · have hi : i < slotCount items := (List.getElem?_eq_some_iff.mp he).1
    obtain ⟨hdiv, hmod⟩ := hzero i (by omega)
    refine ⟨c, by rw [hdiv]; rfl, ?_⟩
    rw [hmod, hdisk i (by omega), getD_eq_getElem?_getD]
    exact congrArg (Option.getD · _) he
  · obtain ⟨hdiv, hmod⟩ := hzero (slotCount items) hlen
    have hx' : ([c] : List ℕ)[slotCount items / v.slots]? = some x := hx
    rw [hdiv] at hx'
    cases hx'
    show v.disk (v.address c (slotCount items % v.slots)) 0 = 0
    have hnone : (items.flatMap Item.slots)[slotCount items]? = none := getElem?_eq_none (Nat.le_refl _)
    rw [hmod, hdisk _ hlen, getD_eq_getElem?_getD, hnone]
    rfl

structure SmallDir (items : List Item) : Prop where
  room : slotCount items < 16
  good : ∀ item ∈ items, item.Good
  longs : ((files items).filterMap long).Nodup
  shorts : ((files items).map fun r => (List.range 11).map r.short).Nodup

lemma stored_docs (root : List Item) (h : SmallDir docs) : Stored (smallVolume root docs) 3 ⟨[3], docs⟩ := by
  refine stored_one (show 0 < 1 by decide) (show 2 ≤ 3 ∧ 3 < 0x0FFFFFF8 ∧ 3 < 512 / 4 by decide)
    (show 0x0FFFFFF8 ≤ 0x0FFFFFFF % 2 ^ 28 by decide) h.room h.good fun i hi => ?_
  have haddr : (smallVolume root docs).address 3 i = 16 + i := by simp [Volume.address, smallVolume]
  rw [haddr]
  exact (if_neg (by omega)).trans (by rw [Nat.add_sub_cancel_left])

def shortEntry (name : Bytes) (attr cluster : UInt8) : Entry := fun k =>
  if k < 11 then name.getD k space else if k = 11 then attr else if k = 26 then cluster else 0

def docsName : Bytes := [100, 111, 99, 115]

def readmeName : Bytes := [114, 101, 97, 100, 109, 101, 46, 116, 120, 116]

def docsRecord : Record := ⟨some docsName, longEntries docsName, shortEntry [68, 79, 67, 83] 0x10 3⟩

def readmeRecord (attr : UInt8) : Record :=
  ⟨some readmeName, longEntries readmeName, shortEntry [82, 69, 65, 68, 77, 69, 126, 49, 84, 88, 84] attr 5⟩

def docsItems (attr : UInt8) : List Item := [.file ⟨none, [], shortEntry [46] 0x10 3⟩, .file (readmeRecord attr)]

lemma Record.good_named {short : Entry} (hne : s ≠ []) (hlen : s.length ≤ 255) (hclean : 0 ∉ s)
    (hused : short 0 ≠ 0) (hkept : short 0 ≠ 0xE5) (hends : attributeOf short ≠ 0x0F) :
    Good ⟨some s, longEntries s, short⟩ :=
  ⟨nofun, fun _ hs => some.inj hs ▸ longName_longEntries hne hlen hclean, hused, hkept, hends⟩

lemma smallDir_docs (hends : attr ≠ 0x0F) : SmallDir (docsItems attr) := by
  have hdot : Good ⟨none, [], shortEntry [46] 0x10 3⟩ := ⟨fun _ => rfl, nofun, by decide, by decide, by decide⟩
  refine ⟨?_, fun item hitem => ?_, ?_, ?_⟩
  · show 3 < 16
    decide
  · rcases mem_cons.mp hitem with rfl | hitem
    · exact hdot
    · rw [mem_singleton.mp hitem]
      exact good_named (by decide) (by decide) (by decide) (by decide : (82 : UInt8) ≠ 0)
        (by decide : (82 : UInt8) ≠ 0xE5) hends
  · show [readmeName].Nodup
    decide
  · show [(List.range 11).map (shortEntry [46] 0 0),
      (List.range 11).map (shortEntry [82, 69, 65, 68, 77, 69, 126, 49, 84, 88, 84] 0 0)].Nodup
    decide

lemma files_docs (h : r ∈ files (docsItems attr)) :
    r = ⟨none, [], shortEntry [46] 0x10 3⟩ ∨ r = readmeRecord attr := by
  simpa [docsItems, files] using h

lemma reached_small {d : Dir} {p : ℕ} (hp : p < 16) : Reached (smallVolume root docs) d p := by
  intro t ht
  have hslots : (smallVolume root docs).slots = 16 := rfl
  rw [hslots] at ht
  omega

lemma dot_not_readme : ¬ HasName (shortEntry [46] 0x10 3) readmeName := by
  rintro ⟨base, ext, hfield, hname⟩
  have hfirst := congrArg List.head? hname
  cases base with
  | nil =>
    by_cases hext : ext = []
    · rw [if_pos hext] at hfirst
      exact absurd hfirst (by decide)
    · rw [if_neg hext] at hfirst
      have hdot : some 82 = some dot := hfirst
      exact absurd hdot (by decide)
  | cons b base =>
    have hfirst' := congrArg List.head? hfield
    exact absurd ((hfirst : some 82 = some b).trans (hfirst' : some 46 = some b).symm) (by decide)

end WivOS.Fat32
