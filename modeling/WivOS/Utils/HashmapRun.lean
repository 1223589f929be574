/-
# A hash map is a finite map

Runs of the operations of `kernel/utils/lists.c` on a new hash map. An operation answers as a finite map from strings
to values does (`Answers`), as long as the array of the buckets has the size `8 * hashSize` it was asked for: for
`2 ^ 61` buckets and more the block is smaller than the array.
-/
import WivOS.Lib.Machine
import WivOS.Utils.Hashmap

namespace WivOS.Hashmaps

open Function List Option Singly Utils Machine
open WivOS.Lists (ListT Represents represents_create)

structure CString where
  bytes : List Byte
  terminated : 0 ∈ bytes

inductive Op where
  | set (key : CString) (value : ℕ)
  | get (key : CString)
  | remove (key : CString)
  | has (key : CString)
  | toList

inductive Returned where
  | value (v : ℕ)
  | bool (b : Bool)
  | list (list : ListT (List Byte))

def exec (map : Hashmap) : Op → Option (Returned × Hashmap)
  | .set key value => (map.set key.bytes value).map fun r => (.value r.1, r.2)
  | .get key => (map.get key.bytes).map fun v => (.value v, map)
  | .remove key => (map.remove key.bytes).map fun r => (.value r.1, r.2)
  | .has key => (map.has key.bytes).map fun b => (.bool b, map)
  | .toList => map.toList.map fun list => (.list list, map)

def step (map : Hashmap) (op : Op) : Option Hashmap := (exec map op).map Prod.snd

def spec (m : List Byte → Option ℕ) : Op → List Byte → Option ℕ
  | .set key value => update m (chars key.bytes) (some value)
  | .remove key => update m (chars key.bytes) none
  | _ => m

def Listed (m : List Byte → Option ℕ) (list : ListT (List Byte)) : Prop :=
  ∃ xs, Represents list xs ∧ (xs.map fun x => chars x.2).Nodup ∧ ∀ k, k ∈ xs.map (fun x => chars x.2) ↔ (m k).isSome

/-- What an operation answers on a finite map; `NULL` is `0`. -/
def Answers (m : List Byte → Option ℕ) : Op → Returned → Prop
  | .set key _, r => r = .value ((m (chars key.bytes)).getD 0)
  | .get key, r => r = .value ((m (chars key.bytes)).getD 0)
  | .remove key, r => r = .value ((m (chars key.bytes)).getD 0)
  | .has key, r => r = .bool (m (chars key.bytes)).isSome
  | .toList, r => ∃ list, r = .list list ∧ Listed m list

/-- After any operations on a new hash map, the next one returns and answers as it should. -/
def FiniteMap (hashSize : ℕ) : Prop :=
  ∀ (ops : List Op) (op : Op), ∃ new map r map', Hashmap.create hashSize = some new ∧ run step new ops = some map ∧
    exec map op = some (r, map') ∧ Answers (ops.foldl spec fun _ => none) op r

section

variable {map : Hashmap} {chains : Chains} {m : List Byte → Option ℕ} {value : ℕ} {r : ℕ × Hashmap} {key : List Byte}
  {hashSize : ℕ}

/-! ### The list of the keys -/

lemma pushChain_spec {heap : Heap Entry} :
    ∀ {xs : List (ℕ × Entry)} {n : ℕ} {start : Option ℕ} {list : ListT (List Byte)}
    {ys : List (ℕ × List Byte)}, Links heap start xs none → Represents list ys → xs.length ≤ n →
    ∃ list' ys', pushChain heap n start list = some list' ∧ Represents list' ys' ∧
      ys'.map Prod.snd = ys.map Prod.snd ++ xs.map fun x => x.2.key
  | [], n, _, list, ys, rfl, h, _ => by
    refine ⟨list, ys, ?_, h, by rw [map_nil, append_nil]⟩
    cases n <;> rfl
  | _ :: _, 0, _, _, _, _, _, hn => absurd hn (Nat.not_succ_le_zero _)
  | x :: xs, n + 1, _, list, ys, ⟨rfl, next, hx, hxs⟩, h, hn => by
    obtain ⟨list1, hpush, h1, -⟩ := h.pushBack x.2.key
    obtain ⟨list2, ys2, hrest, h2, hys⟩ := pushChain_spec hxs h1 (Nat.le_of_succ_le_succ hn)
    refine ⟨list2, ys2, ?_, h2, ?_⟩
    · rw [pushChain, hx, bind_some, hpush, bind_some, hrest]
    · rw [hys, map_append, append_assoc, map_cons]
      rfl

lemma Holds.toList_range (h : Holds map chains) : ∀ n ≤ map.hashSize, ∃ list ys,
    (List.range n).foldlM (fun list i => (map.bucket i).bind fun first => pushChain map.heap map.fresh first list)
      ListT.create = some list ∧ Represents list ys ∧
      ys.map Prod.snd = (List.range n).flatMap fun i => (chains i).map fun x => x.2.key
  | 0, _ => ⟨ListT.create, [], rfl, represents_create, rfl⟩
  | n + 1, hn => by
    obtain ⟨list, ys, hlist, hr, hys⟩ := h.toList_range n (Nat.le_of_succ_le hn)
    obtain ⟨list', ys', hpush, hr', hys'⟩ := pushChain_spec (h.links n hn) hr (h.bucket n hn).room
    refine ⟨list', ys', ?_, hr', ?_⟩
    · rw [range_succ, foldlM_append, hlist]
      simp only [foldlM_cons, foldlM_nil, bind_eq_bind, bind_some, h.bucket_eq hn, hpush]
      rfl
    · rw [hys', hys, range_succ, flatMap_append, flatMap_singleton]

/-- **`hashmap_to_list`** gives each key once. -/
lemma Holds.toList (h : Holds map chains) (hm : Agrees map.hashSize chains m) :
    ∃ list, map.toList = some list ∧ Listed m list := by
  obtain ⟨list, ys, hlist, hr, hys⟩ := h.toList_range map.hashSize (Nat.le_refl _)
  have hkeys : ys.map (fun y => chars y.2) = (List.range map.hashSize).flatMap fun i => (chains i).map keyOf := by
    calc ys.map (fun y => chars y.2) = (ys.map Prod.snd).map chars := by rw [List.map_map]; rfl
      _ = (List.range map.hashSize).flatMap fun i => (chains i).map keyOf := by
        rw [hys, map_flatMap]
        simp only [List.map_map]
        rfl
  refine ⟨list, hlist, ys, hr, ?_, fun k => ?_⟩
  · rw [hkeys, nodup_flatMap]
    refine ⟨fun i hi => (h.bucket i (mem_range.mp hi)).keys, ?_⟩
    refine nodup_range.imp_of_mem fun {i j} hi hj hij => ?_
    -- a key is at home in one bucket only
    intro k hk hk'
    obtain ⟨x, hx, rfl⟩ := mem_map.mp hk
    obtain ⟨y, hy, heq⟩ := mem_map.mp hk'
    have hix := (h.bucket i (mem_range.mp hi)).home x hx
    have hjy := (h.bucket j (mem_range.mp hj)).home y hy
    rw [heq] at hjy
    exact hij (hix.symm.trans hjy)
  · rw [hkeys, isSome_iff_exists]
    simp only [mem_flatMap, mem_range, List.mem_map]
    constructor
    · rintro ⟨i, hi, x, hx, rfl⟩
      rw [← (h.bucket i hi).home x hx] at hx
      exact ⟨x.2.value, hm.eq_some hx rfl⟩
    · rintro ⟨v, hv⟩
      obtain ⟨x, hx, hxk, -⟩ := (hm k v).mp hv
      exact ⟨_, h.home_lt k, x, hx, hxk⟩

/-! ### Runs -/

/-- The map stands for the finite map `m`. -/
def Stands (map : Hashmap) (m : List Byte → Option ℕ) : Prop :=
  ∃ chains, Holds map chains ∧ Agrees map.hashSize chains m

lemma Does.stands {result : Option (ℕ × Hashmap)} {m' : List Byte → Option ℕ} (h : Does map result value m') :
    ∃ map', result = some (value, map') ∧ Stands map' m' := by
  obtain ⟨map', chains', hresult, hsize, hh, hm⟩ := h
  exact ⟨map', hresult, chains', hh, hsize ▸ hm⟩

lemma Stands.exec (h : Stands map m) (op : Op) :
    ∃ r map', exec map op = some (r, map') ∧ Answers m op r ∧ Stands map' (spec m op) := by
  obtain ⟨chains, hh, hm⟩ := h
  cases op with
  | set key value =>
    obtain ⟨map', hset, hs⟩ := (hh.set hm key.terminated value).stands
    exact ⟨_, map', by rw [Hashmaps.exec, hset, map_some], rfl, hs⟩
  | get key => exact ⟨_, map, by rw [Hashmaps.exec, hh.get hm key.terminated, map_some], rfl, chains, hh, hm⟩
  | remove key =>
    obtain ⟨map', hremove, hs⟩ := (hh.remove hm key.terminated).stands
    exact ⟨_, map', by rw [Hashmaps.exec, hremove, map_some], rfl, hs⟩
  | has key => exact ⟨_, map, by rw [Hashmaps.exec, hh.has hm key.terminated, map_some], rfl, chains, hh, hm⟩
  | toList =>
    obtain ⟨list, hlist, hkeys⟩ := hh.toList hm
    exact ⟨_, map, by rw [Hashmaps.exec, hlist, map_some], ⟨list, rfl, hkeys⟩, chains, hh, hm⟩

lemma mem_of_set (h : map.set key value = some r) : 0 ∈ key := by
  rw [Hashmap.set, Hashmap.find, Hashmap.index] at h
  by_cases hsize : map.hashSize = 0
  · rw [if_pos hsize] at h
    cases h
  · rw [if_neg hsize] at h
    cases hhash : stringHash key with
    | none =>
      rw [hhash] at h
      cases h
    | some hash => exact mem_of_hashLoop hhash

lemma Stands.set (hs : Stands map m) (h : map.set key value = some r) :
    Stands r.2 (update m (chars key) (some value)) := by
  obtain ⟨chains, hh, hm⟩ := hs
  obtain ⟨map', hset, hs'⟩ := (hh.set hm (mem_of_set h) value).stands
  obtain rfl : _ = r := some.inj (hset.symm.trans h)
  exact hs'

lemma Stands.get (hs : Stands map m) (key : CString) : map.get key.bytes = some ((m (chars key.bytes)).getD 0) := by
  obtain ⟨chains, hh, hm⟩ := hs
  exact hh.get hm key.terminated

lemma create_spec (hashSize : ℕ) : ∃ new, Hashmap.create hashSize = some new ∧ new.hashSize = hashSize ∧
    new.slots = (8 * hashSize % 2 ^ 64 + 0xFFF) / 0x1000 * 0x1000 / 8 ∧ (∀ i, new.table i = none) := by
  obtain ⟨array, harray, hok, hsize⟩ := kmalloc_spec (8 * hashSize % 2 ^ 64)
  have hcreate : Hashmap.create hashSize =
      some ⟨hashSize, array.pages * 0x1000 / 8, fun _ => none, fun _ => none, 0⟩ := by
    rw [Hashmap.create, harray, map_some]
  refine ⟨_, hcreate, rfl, ?_, fun _ => rfl⟩
  rw [← hsize, ← hok.pages_eq]

lemma stands_create (hpos : 1 ≤ hashSize) (hfits : 8 * hashSize < 2 ^ 64) :
    ∃ new, Hashmap.create hashSize = some new ∧ Stands new fun _ => none := by
  obtain ⟨new, hnew, hsize, hslots, htable⟩ := create_spec hashSize
  refine ⟨new, hnew, fun _ => [], ⟨by omega, by omega, fun i _ => htable i, fun i _ => ?_⟩, fun k v => ?_⟩
  · exact ⟨nofun, nofun, nodup_nil, nofun, Nat.zero_le _⟩
  · exact iff_of_false nofun (by simp)

lemma stands_run {new : Hashmap} {ops : List Op} (hpos : 1 ≤ hashSize) (hfits : 8 * hashSize < 2 ^ 64)
    (hnew : Hashmap.create hashSize = some new) (hrun : run step new ops = some map) : ∃ m, Stands map m := by
  obtain ⟨new', hnew', hs⟩ := stands_create hpos hfits
  obtain rfl : new' = new := some.inj (hnew'.symm.trans hnew)
  refine run_invariant step (I := fun map => ∃ m, Stands map m) (fun s op s' hs h => ?_) ops _ map ⟨_, hs⟩ hrun
  obtain ⟨m, hs⟩ := hs
  obtain ⟨r, map', hexec, -, hs'⟩ := hs.exec op
  rw [step, hexec, map_some] at h
  obtain rfl : map' = s' := some.inj h
  exact ⟨_, hs'⟩

lemma toList_eq_none (h : map.slots < map.hashSize) : map.toList = none := by
  refine run_eq_none _ (i := map.slots) (fun list => ?_) _ (mem_range.mpr h)
  rw [Hashmap.bucket, if_neg (Nat.lt_irrefl _), bind_none]

end

/-- **Hash maps.** A hash map behaves as a finite map exactly if the size of its array fits in 64
bits. -/
theorem finiteMap_iff (hashSize : ℕ) (hpos : 1 ≤ hashSize) : FiniteMap hashSize ↔ 8 * hashSize < 2 ^ 64 := by
  constructor
  · intro h
    by_contra hfits
    obtain ⟨new, map, r, map', hnew, hrun, hexec, -⟩ := h [] .toList
    obtain ⟨new', hnew', hsize, hslots, -⟩ := create_spec hashSize
    obtain rfl : new' = new := some.inj (hnew'.symm.trans hnew)
    obtain rfl : new' = map := some.inj hrun
    have hlt : new'.slots < new'.hashSize := by omega
    rw [exec, toList_eq_none hlt] at hexec
    cases hexec
  · intro hfits ops op
    obtain ⟨new, hnew, hs⟩ := stands_create hpos hfits
    obtain ⟨map, hrun, hs'⟩ := run_simulation step (C := fun _ _ => True) (R := Stands) (fun map m op h _ => by
      obtain ⟨r, map', hexec, -, h'⟩ := h.exec op
      exact ⟨map', by rw [step, hexec, map_some], h'⟩) ops new (fun _ => none) hs
      (along_of_forall _ ops _ fun _ _ => trivial)
    obtain ⟨r, map', hexec, hanswers, -⟩ := hs'.exec op
    exact ⟨new, map, r, map', hnew, hrun, hexec, hanswers⟩

theorem finiteMap_twenty : 1 ≤ 20 ∧ (FiniteMap 20 ↔ 8 * 20 < 2 ^ 64) := ⟨by decide, finiteMap_iff 20 (by decide)⟩

/-- With `2 ^ 61` buckets, `hashmap_create` asks for a block of no bytes, and `hashmap_get` reads
outside it. -/
theorem get_outside_array : ∃ new, Hashmap.create (2 ^ 61) = some new ∧ new.slots = 0 ∧ new.get [0x61, 0] = none :=
  ⟨_, rfl, by decide +kernel, by decide +kernel⟩

end WivOS.Hashmaps
