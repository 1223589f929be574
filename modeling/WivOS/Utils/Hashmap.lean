/-
# Hash maps

`hashmap_create`, `hashmap_set`, `hashmap_get`, `hashmap_remove`, `hashmap_has` and `hashmap_to_list` of
`kernel/utils/lists.c`. Each bucket is a chain of entries, and the buckets are an array in a block of `kmalloc`, whose
size is computed with 64 bits; an access outside it is a fault (`none`). The functions on a key walk the chain of its
bucket in the same way (`findEntry`), and a chain that has its keys at home and no key twice stays so (`Holds`).
-/
import WivOS.Lib.Singly
import WivOS.Utils.Lists
import WivOS.Utils.Strings

namespace WivOS.Hashmaps

open Function List Option Singly Utils
open WivOS.Lists

structure Entry where
  key : List Byte
  value : ℕ

/-- `hashmap_t`, with its entries. The block of the array has room for `slots` pointers. -/
structure Hashmap where
  hashSize : ℕ
  slots : ℕ
  table : ℕ → Option ℕ
  heap : Heap Entry
  fresh : ℕ

def findEntry (heap : Heap Entry) (key : List Byte) : ℕ → Option ℕ → Option ℕ → Option (Option ℕ × Option ℕ)
  | _, lastEntry, none => some (lastEntry, none)
  | 0, _, some _ => none
  | n + 1, lastEntry, some i => (heap i).bind fun entry => (strcmp entry.item.key key).bind fun r =>
      if r = 0 then some (lastEntry, some i) else findEntry heap key n (some i) entry.next

def pushChain (heap : Heap Entry) : ℕ → Option ℕ → ListT (List Byte) → Option (ListT (List Byte))
  | _, none, list => some list
  | 0, some _, _ => none
  | n + 1, some i, list => (heap i).bind fun entry => (list.pushBack entry.item.key).bind fun list =>
      pushChain heap n entry.next list

namespace Hashmap

def create (hashSize : ℕ) : Option Hashmap :=
  (kmalloc true (8 * hashSize % 2 ^ 64)).map fun array =>
    { hashSize, slots := array.pages * 0x1000 / 8, table := fun _ => none, heap := fun _ => none, fresh := 0 }

variable (map : Hashmap)

def bucket (i : ℕ) : Option (Option ℕ) := if i < map.slots then some (map.table i) else none

def index (key : List Byte) : Option ℕ :=
  if map.hashSize = 0 then none else (stringHash key).map fun hash => hash.toNat % map.hashSize

def find (key : List Byte) : Option (ℕ × Option ℕ × Option ℕ) :=
  (map.index key).bind fun i => (map.bucket i).bind fun first =>
    (findEntry map.heap key map.fresh none first).map fun r => (i, r)

def link (i : ℕ) (next : Option ℕ) : Option Hashmap :=
  (map.heap i).map fun entry => { map with heap := update map.heap i (some { entry with next := next }) }

/-- What comes behind the last entry, or first in the bucket, is now `next`. -/
def behind (i : ℕ) (lastEntry next : Option ℕ) : Option Hashmap :=
  match lastEntry with
  | some last => map.link last next
  | none => some { map with table := update map.table i next }

def set (key : List Byte) (value : ℕ) : Option (ℕ × Hashmap) :=
  (map.find key).bind fun
    | (_, _, some i) => (map.heap i).map fun entry =>
        (entry.item.value, { map with heap := update map.heap i (some { entry with item := { entry.item with value := value } }) })
    | (i, lastEntry, none) => (strdup key).bind fun dup =>
        let added := { map with heap := update map.heap map.fresh (some ⟨⟨dup, value⟩, none⟩), fresh := map.fresh + 1 }
        (added.behind i lastEntry (some map.fresh)).map fun map => (0, map)

def get (key : List Byte) : Option ℕ :=
  (map.find key).bind fun
    | (_, _, some i) => (map.heap i).map fun entry => entry.item.value
    | (_, _, none) => some 0

def remove (key : List Byte) : Option (ℕ × Hashmap) :=
  (map.find key).bind fun
    | (i, lastEntry, some j) => (map.heap j).bind fun entry => (map.behind i lastEntry entry.next).map fun map =>
        (entry.item.value, { map with heap := update map.heap j none })
    | (_, _, none) => some (0, map)

def has (key : List Byte) : Option Bool := (map.find key).map fun r => r.2.2.isSome

def toList : Option (ListT (List Byte)) :=
  (List.range map.hashSize).foldlM (fun list i => (map.bucket i).bind fun first =>
    pushChain map.heap map.fresh first list) ListT.create

end Hashmap

/-! ### The chains -/

def home (hashSize : ℕ) (key : List Byte) : ℕ := (key.foldl hashStep 0).toNat % hashSize

abbrev Chains := ℕ → List (ℕ × Entry)

def keyOf (x : ℕ × Entry) : List Byte := chars x.2.key

structure Bucket (hashSize limit i : ℕ) (xs : List (ℕ × Entry)) : Prop where
  terminated : ∀ x ∈ xs, 0 ∈ x.2.key
  home : ∀ x ∈ xs, home hashSize (keyOf x) = i
  keys : (xs.map keyOf).Nodup
  fresh : ∀ x ∈ xs, x.1 < limit
  room : xs.length ≤ limit

structure Holds (map : Hashmap) (chains : Chains) : Prop where
  pos : 0 < map.hashSize
  slots : map.hashSize ≤ map.slots
  links : ∀ i < map.hashSize, Links map.heap (map.table i) (chains i) none
  bucket : ∀ i < map.hashSize, Bucket map.hashSize map.fresh i (chains i)

/-- The map from keys to values that the chains stand for. -/
def Agrees (hashSize : ℕ) (chains : Chains) (m : List Byte → Option ℕ) : Prop :=
  ∀ k v, m k = some v ↔ ∃ x ∈ chains (home hashSize k), keyOf x = k ∧ x.2.value = v

variable {x : ℕ × Entry} {xs : List (ℕ × Entry)} {limit n : ℕ} {k : List Byte}

section

variable {map : Hashmap} {chains : Chains} {m : List Byte → Option ℕ} {key : List Byte} {i : ℕ} {a b : List (ℕ × Entry)}
  {heap : Heap Entry}

section

variable (h : Holds map chains)
include h

lemma Holds.home_lt (k : List Byte) : home map.hashSize k < map.hashSize := Nat.mod_lt _ h.pos

lemma Holds.index (hkey : 0 ∈ key) : map.index key = some (home map.hashSize (chars key)) := by
  rw [Hashmap.index, if_neg (Nat.ne_of_gt h.pos), stringHash_eq hkey]
  rfl

lemma Holds.bucket_eq (hi : i < map.hashSize) : map.bucket i = some (map.table i) :=
  if_pos (Nat.lt_of_lt_of_le hi h.slots)

lemma Holds.apart {j : ℕ} (hi : i < map.hashSize) (hj : j < map.hashSize) (hij : i ≠ j)
    {y : ℕ × Entry} (hx : x ∈ chains i) (hy : y ∈ chains j) : x.1 ≠ y.1 := by
  intro heq
  have hitem := (h.links i hi).item_eq (h.links j hj) hx hy heq
  have hix := (h.bucket i hi).home x hx
  have hjy := (h.bucket j hj).home y hy
  rw [keyOf, hitem] at hix
  exact hij (hix.symm.trans hjy)

lemma Holds.nodup (hi : i < map.hashSize) : ((chains i).map Prod.fst).Nodup := by
  have hkeys := (h.bucket i hi).keys
  rw [List.Nodup, pairwise_map] at hkeys ⊢
  refine hkeys.imp_of_mem fun {x y} hx hy hne heq => hne ?_
  rw [keyOf, keyOf, (h.links i hi).item_eq (h.links i hi) hx hy heq]

end

/-! ### The walk along a chain -/

lemma findEntry_found (hkey : 0 ∈ key) {b : List (ℕ × Entry)} (hx : keyOf x = chars key) :
    ∀ {a : List (ℕ × Entry)} {n : ℕ} {lastEntry start stop : Option ℕ}, Links heap start (a ++ x :: b) stop →
      (∀ y ∈ a ++ x :: b, 0 ∈ y.2.key) → (∀ y ∈ a, keyOf y ≠ chars key) → (a ++ x :: b).length ≤ n →
      findEntry heap key n lastEntry start = some (lastId lastEntry a, some x.1)
  | [], 0, _, _, _, _, _, _, hn => absurd hn (Nat.not_succ_le_zero _)
  | _ :: _, 0, _, _, _, _, _, _, hn => absurd hn (Nat.not_succ_le_zero _)
  | [], n + 1, lastEntry, _, _, ⟨rfl, next, hcell, _⟩, hterm, _, _ => by
    obtain ⟨r, hr, hzero⟩ := strcmp_spec (hterm x mem_cons_self) hkey
    rw [findEntry, hcell, bind_some, hr, bind_some, if_pos (hzero.mpr hx), lastId]
  | y :: a, n + 1, lastEntry, _, _, ⟨rfl, next, hcell, hrest⟩, hterm, hne, hn => by
    obtain ⟨r, hr, hzero⟩ := strcmp_spec (hterm y mem_cons_self) hkey
    rw [findEntry, hcell, bind_some, hr, bind_some, if_neg fun hz => hne y mem_cons_self (hzero.mp hz), lastId]
    exact findEntry_found hkey hx hrest (fun z hz => hterm z (mem_cons_of_mem y hz))
      (fun z hz => hne z (mem_cons_of_mem y hz)) (Nat.le_of_succ_le_succ hn)

lemma findEntry_absent (hkey : 0 ∈ key) :
    ∀ {xs : List (ℕ × Entry)} {n : ℕ} {lastEntry start : Option ℕ}, Links heap start xs none →
      (∀ y ∈ xs, 0 ∈ y.2.key) → (∀ y ∈ xs, keyOf y ≠ chars key) → xs.length ≤ n →
      findEntry heap key n lastEntry start = some (lastId lastEntry xs, none)
  | [], n, _, _, rfl, _, _, _ => by
    cases n <;> rfl
  | _ :: _, 0, _, _, _, _, _, hn => absurd hn (Nat.not_succ_le_zero _)
  | y :: xs, n + 1, lastEntry, _, ⟨rfl, next, hcell, hrest⟩, hterm, hne, hn => by
    obtain ⟨r, hr, hzero⟩ := strcmp_spec (hterm y mem_cons_self) hkey
    rw [findEntry, hcell, bind_some, hr, bind_some, if_neg fun hz => hne y mem_cons_self (hzero.mp hz), lastId]
    exact findEntry_absent hkey hrest (fun z hz => hterm z (mem_cons_of_mem y hz))
      (fun z hz => hne z (mem_cons_of_mem y hz)) (Nat.le_of_succ_le_succ hn)

lemma Holds.find (h : Holds map chains) (hkey : 0 ∈ key) :
    (∃ a x b, chains (home map.hashSize (chars key)) = a ++ x :: b ∧ keyOf x = chars key ∧
        map.find key = some (home map.hashSize (chars key), lastId none a, some x.1)) ∨
      ((∀ y ∈ chains (home map.hashSize (chars key)), keyOf y ≠ chars key) ∧
        map.find key = some (home map.hashSize (chars key), lastId none (chains (home map.hashSize (chars key))), none)) := by
  have hi := h.home_lt (chars key)
  obtain hb := h.bucket _ hi
  have hlinks := h.links _ hi
  rw [Hashmap.find, h.index hkey, bind_some, h.bucket_eq hi, bind_some]
  by_cases hex : ∃ x ∈ chains (home map.hashSize (chars key)), keyOf x = chars key
  · obtain ⟨x, hx, hxk⟩ := hex
    obtain ⟨a, b, hab⟩ := append_of_mem hx
    refine .inl ⟨a, x, b, hab, hxk, ?_⟩
    rw [hab] at hb hlinks
    have hkeys := hb.keys
    rw [map_append, nodup_append] at hkeys
    have hne : ∀ y ∈ a, keyOf y ≠ chars key := fun y hy => by
      rw [← hxk]
      exact hkeys.2.2 _ (mem_map_of_mem hy) _ (mem_map_of_mem mem_cons_self)
    rw [findEntry_found hkey hxk hlinks hb.terminated hne hb.room, map_some]
  · have hne : ∀ y ∈ chains (home map.hashSize (chars key)), keyOf y ≠ chars key := fun y hy hk => hex ⟨y, hy, hk⟩
    refine .inr ⟨hne, ?_⟩
    rw [findEntry_absent hkey hlinks hb.terminated hne hb.room, map_some]

/-! ### Changing a chain -/

/-- The map differs in one bucket and in the entries `ids`. -/
structure Changed (map map' : Hashmap) (i : ℕ) (ids : List ℕ) : Prop where
  hashSize : map'.hashSize = map.hashSize
  slots : map'.slots = map.slots
  fresh : map.fresh ≤ map'.fresh
  table : ∀ j, j ≠ i → map'.table j = map.table j
  heap : ∀ k < map.fresh, k ∉ ids → map'.heap k = map.heap k

lemma Holds.rebuild (h : Holds map chains) {map' : Hashmap} (hc : Changed map map' i ((chains i).map Prod.fst))
    (hi : i < map.hashSize) (hlinks : Links map'.heap (map'.table i) xs none)
    (hbucket : Bucket map.hashSize map'.fresh i xs) : Holds map' (update chains i xs) := by
  have hfresh := hc.fresh
  refine ⟨hc.hashSize ▸ h.pos, ?_, fun j hj => ?_, fun j hj => ?_⟩
  · rw [hc.hashSize, hc.slots]
    exact h.slots
  · by_cases hji : j = i
    · rw [hji, update_self]
      exact hlinks
    · rw [hc.hashSize] at hj
      rw [update_of_ne hji, hc.table j hji]
      refine (h.links j hj).congr fun x hx => hc.heap x.1 ((h.bucket j hj).fresh x hx) fun hmem => ?_
      obtain ⟨y, hy, hyx⟩ := mem_map.mp hmem
      exact h.apart hi hj (Ne.symm hji) hy hx hyx
  · rw [hc.hashSize] at hj ⊢
    by_cases hji : j = i
    · rw [hji, update_self]
      exact hbucket
    · have hb := h.bucket j hj
      rw [update_of_ne hji]
      exact ⟨hb.terminated, hb.home, hb.keys, fun x hx => Nat.lt_of_lt_of_le (hb.fresh x hx) hfresh,
        Nat.le_trans hb.room hfresh⟩

lemma behind_spec {a : List (ℕ × Entry)} {stop : Option ℕ} (hlinks : Links map.heap (map.table i) a stop)
    (hnodup : (a.map Prod.fst).Nodup) (next : Option ℕ) :
    ∃ map', map.behind i (lastId none a) next = some map' ∧ Links map'.heap (map'.table i) a next ∧
      Changed map map' i (a.map Prod.fst) ∧ map'.fresh = map.fresh ∧ ∀ k ∉ a.map Prod.fst, map'.heap k = map.heap k := by
  obtain rfl | ⟨a, y, rfl⟩ := a.eq_nil_or_concat'
  · refine ⟨_, rfl, update_self .., ⟨rfl, rfl, Nat.le_refl _, fun j hj => ?_, fun _ _ _ => rfl⟩, rfl, fun _ _ => rfl⟩
    exact update_of_ne hj ..
  · obtain ⟨ha, hy⟩ := links_concat.mp hlinks
    rw [map_append, nodup_append] at hnodup
    have hya : y.1 ∉ a.map Prod.fst := fun hmem => hnodup.2.2 y.1 hmem y.1 (by simp) rfl
    have hother : ∀ k ∉ (a ++ [y]).map Prod.fst, update map.heap y.1 (some ⟨y.2, next⟩) k = map.heap k :=
      fun k hk => update_of_ne (fun he => hk (by simp [he])) ..
    have hbehind : map.behind i (lastId none (a ++ [y])) next =
        some { map with heap := update map.heap y.1 (some ⟨y.2, next⟩) } := by
      rw [lastId_concat, Hashmap.behind, Hashmap.link, hy, map_some]
    exact ⟨_, hbehind, links_concat.mpr ⟨ha.update hya _, update_self ..⟩,
      ⟨rfl, rfl, Nat.le_refl _, fun _ _ => rfl, fun k _ hk => hother k hk⟩, rfl, hother⟩

/-! ### What the map does -/

lemma Agrees.eq_some (hm : Agrees map.hashSize chains m) (hx : x ∈ chains (home map.hashSize k)) (hk : keyOf x = k) :
    m k = some x.2.value :=
  (hm k x.2.value).mpr ⟨x, hx, hk, rfl⟩

lemma Agrees.eq_none (hm : Agrees map.hashSize chains m) (hne : ∀ y ∈ chains (home map.hashSize k), keyOf y ≠ k) :
    m k = none := by
  rw [eq_none_iff_forall_ne_some]
  intro v hv
  obtain ⟨x, hx, hk, -⟩ := (hm k v).mp hv
  exact hne x hx hk

lemma Agrees.update (hm : Agrees n chains m) {o : Option ℕ}
    (hother : ∀ y, keyOf y ≠ k → (y ∈ xs ↔ y ∈ chains (home n k)))
    (hself : ∀ v, o = some v ↔ ∃ y ∈ xs, keyOf y = k ∧ y.2.value = v) :
    Agrees n (update chains (home n k) xs) (update m k o) := by
  intro k' v
  by_cases hk : k' = k
  · rw [hk, update_self, update_self]
    exact hself v
  · rw [update_of_ne hk, hm k' v]
    by_cases hhome : home n k' = home n k
    · rw [hhome, update_self]
      refine exists_congr fun y => and_congr_left fun hy => (hother y ?_).symm
      rw [hy.1]
      exact hk
    · rw [update_of_ne hhome]

lemma Bucket.ne_of_mem (hb : Bucket n limit i (a ++ x :: b)) :
    ∀ y ∈ a ++ b, keyOf y ≠ keyOf x := by
  have hkeys := hb.keys
  rw [map_append, nodup_append, map_cons, nodup_cons] at hkeys
  intro y hy heq
  rcases mem_append.mp hy with hy | hy
  · exact hkeys.2.2 _ (mem_map_of_mem hy) _ mem_cons_self heq
  · exact hkeys.2.1.1 (heq ▸ mem_map_of_mem hy)

lemma Bucket.replace {x' : ℕ × Entry} (hb : Bucket n limit i (a ++ x :: b))
    (hid : x'.1 = x.1) (hkey : x'.2.key = x.2.key) : Bucket n limit i (a ++ x' :: b) := by
  have hkeyOf : keyOf x' = keyOf x := by rw [keyOf, keyOf, hkey]
  have hmem : ∀ y ∈ a ++ x' :: b, y = x' ∨ y ∈ a ++ x :: b := by
    intro y hy
    simp only [mem_append, mem_cons] at hy ⊢
    tauto
  have hx : x ∈ a ++ x :: b := mem_append_right a mem_cons_self
  refine ⟨fun y hy => ?_, fun y hy => ?_, ?_, fun y hy => ?_, ?_⟩
  · rcases hmem y hy with rfl | hy
    · exact hkey ▸ hb.terminated x hx
    · exact hb.terminated y hy
  · rcases hmem y hy with rfl | hy
    · exact hkeyOf ▸ hb.home x hx
    · exact hb.home y hy
  · have hkeys := hb.keys
    rw [map_append, map_cons] at hkeys ⊢
    rw [hkeyOf]
    exact hkeys
  · rcases hmem y hy with rfl | hy
    · exact hid ▸ hb.fresh x hx
    · exact hb.fresh y hy
  · have hroom := hb.room
    rw [length_append, length_cons] at hroom ⊢
    exact hroom

lemma Bucket.concat {e : Entry} (hb : Bucket n limit i xs) (hterm : 0 ∈ e.key)
    (hhome : Hashmaps.home n (chars e.key) = i) (hne : ∀ y ∈ xs, keyOf y ≠ chars e.key) :
    Bucket n (limit + 1) i (xs ++ [(limit, e)]) := by
  have hmem : ∀ y ∈ xs ++ [(limit, e)], y ∈ xs ∨ y = (limit, e) := fun y hy => by
    simpa only [mem_append, mem_singleton] using hy
  refine ⟨fun y hy => ?_, fun y hy => ?_, ?_, fun y hy => ?_, ?_⟩
  · rcases hmem y hy with hy | rfl
    · exact hb.terminated y hy
    · exact hterm
  · rcases hmem y hy with hy | rfl
    · exact hb.home y hy
    · exact hhome
  · rw [map_append, nodup_append]
    refine ⟨hb.keys, nodup_singleton _, fun k hk k' hk' => ?_⟩
    obtain ⟨y, hy, rfl⟩ := mem_map.mp hk
    rw [map_singleton, mem_singleton] at hk'
    rw [hk']
    exact hne y hy
  · rcases hmem y hy with hy | rfl
    · exact Nat.lt_succ_of_lt (hb.fresh y hy)
    · exact Nat.lt_succ_self _
  · rw [length_append]
    exact Nat.succ_le_succ hb.room

lemma Bucket.without (hb : Bucket n limit i (a ++ x :: b)) : Bucket n limit i (a ++ b) := by
  have hsub : (a ++ b).Sublist (a ++ x :: b) := List.Sublist.append_left (sublist_cons_self x b) a
  exact ⟨fun y hy => hb.terminated y (hsub.subset hy), fun y hy => hb.home y (hsub.subset hy), hb.keys.sublist (hsub.map _),
    fun y hy => hb.fresh y (hsub.subset hy), Nat.le_trans hsub.length_le hb.room⟩

/-- What an operation that returns a value does to the map. -/
def Does (map : Hashmap) (result : Option (ℕ × Hashmap)) (value : ℕ) (m' : List Byte → Option ℕ) : Prop :=
  ∃ map' chains', result = some (value, map') ∧ map'.hashSize = map.hashSize ∧ Holds map' chains' ∧
    Agrees map.hashSize chains' m'

section

variable (h : Holds map chains) (hm : Agrees map.hashSize chains m)
include h hm

lemma Holds.set_found
    (hab : chains (home map.hashSize (chars key)) = a ++ x :: b) (hxk : keyOf x = chars key)
    (hfind : map.find key = some (home map.hashSize (chars key), lastId none a, some x.1)) (value : ℕ) :
    Does map (map.set key value) ((m (chars key)).getD 0) (update m (chars key) (some value)) := by
  have hi := h.home_lt (chars key)
  have hmem : x ∈ chains (home map.hashSize (chars key)) := hab ▸ mem_append_right a mem_cons_self
  have hlinks := h.links _ hi
  have hnodup := h.nodup hi
  have hb := h.bucket _ hi
  rw [hab] at hlinks hnodup hb
  obtain ⟨next, ha, hstart, next', hx, hbs⟩ := (links_append ..).mp hlinks
  rw [map_append, nodup_append, map_cons, nodup_cons] at hnodup
  have hxa : x.1 ∉ a.map Prod.fst := fun hmem => hnodup.2.2 x.1 hmem x.1 mem_cons_self rfl
  have hne := hb.ne_of_mem
  have hset : map.set key value = some ((m (chars key)).getD 0,
      { map with heap := update map.heap x.1 (some ⟨{ x.2 with value := value }, next'⟩) }) := by
    rw [Hashmap.set, hfind, bind_some]
    simp only [hx, map_some, hm.eq_some hmem hxk, getD_some]
  refine ⟨_, update chains _ (a ++ (x.1, { x.2 with value := value }) :: b), hset, rfl, h.rebuild ⟨rfl, rfl,
    Nat.le_refl _, fun _ _ => rfl, fun k _ hk => update_of_ne (fun he => hk (he ▸ mem_map_of_mem hmem)) ..⟩ hi ?_
    (hb.replace rfl rfl), hm.update ?_ ?_⟩
  · exact (links_append ..).mpr ⟨next, ha.update hxa _, hstart, next', update_self .., hbs.update hnodup.2.1.1 _⟩
  · intro y hy
    have hyx : y ≠ x := fun he => hy (he ▸ hxk)
    have hyx' : y ≠ (x.1, { x.2 with value := value }) := fun he => hy (he ▸ hxk)
    simp only [hab, mem_append, mem_cons, hyx, hyx']
  · intro v
    constructor
    · rintro ⟨⟩
      exact ⟨_, mem_append_right a mem_cons_self, hxk, rfl⟩
    · rintro ⟨y, hy, hyk, rfl⟩
      by_cases hyx : y = (x.1, { x.2 with value := value })
      · rw [hyx]
      · have hy' : y ∈ a ++ b := by
          simp only [mem_append, mem_cons, hyx, false_or] at hy ⊢
          exact hy
        exact absurd (hyk.trans hxk.symm) (hne y hy')

lemma Holds.set_absent (hkey : 0 ∈ key)
    (hne : ∀ y ∈ chains (home map.hashSize (chars key)), keyOf y ≠ chars key) (hfind : map.find key =
      some (home map.hashSize (chars key), lastId none (chains (home map.hashSize (chars key))), none)) (value : ℕ) :
    Does map (map.set key value) ((m (chars key)).getD 0) (update m (chars key) (some value)) := by
  have hi := h.home_lt (chars key)
  have hb := h.bucket _ hi
  obtain ⟨dup, hdup, hterm, hchars⟩ := strdup_spec hkey
  let added : Hashmap := { map with
    heap := update map.heap map.fresh (some ⟨⟨dup, value⟩, none⟩), fresh := map.fresh + 1 }
  have hnew : map.fresh ∉ (chains (home map.hashSize (chars key))).map Prod.fst := by
    intro hmem
    obtain ⟨y, hy, he⟩ := mem_map.mp hmem
    exact absurd (hb.fresh y hy) (by omega)
  obtain ⟨map', hbehind, hlinks, hc, hfresh, hheap⟩ := @behind_spec added (home map.hashSize (chars key)) _ none
    ((h.links _ hi).update hnew _) (h.nodup hi) (some map.fresh)
  have hset : map.set key value = some ((m (chars key)).getD 0, map') := by
    rw [Hashmap.set, hfind, bind_some]
    simp only [hdup, bind_some]
    rw [hbehind, map_some, hm.eq_none hne, getD_none]
  have hc' : Changed map map' (home map.hashSize (chars key)) ((chains (home map.hashSize (chars key))).map Prod.fst) := by
    refine ⟨hc.hashSize, hc.slots, by rw [hfresh]; exact Nat.le_succ _, hc.table, fun k hk hmem => ?_⟩
    rw [hheap k hmem]
    exact update_of_ne (Nat.ne_of_lt hk) ..
  have hhome : home map.hashSize (chars dup) = home map.hashSize (chars key) := by rw [hchars]
  refine ⟨map', update chains _ (chains (home map.hashSize (chars key)) ++ [(map.fresh, ⟨dup, value⟩)]), hset,
    hc.hashSize, h.rebuild hc' hi ?_ ?_, hm.update ?_ ?_⟩
  · refine links_concat.mpr ⟨hlinks, ?_⟩
    rw [hheap _ hnew]
    exact update_self ..
  · rw [hfresh]
    exact hb.concat hterm hhome (hchars ▸ hne)
  · intro y hy
    have hyx : y ≠ (map.fresh, ⟨dup, value⟩) := fun he => hy (he ▸ hchars)
    simp only [mem_append, mem_singleton, hyx, or_false]
  · intro v
    constructor
    · rintro ⟨⟩
      exact ⟨_, mem_append_right _ mem_cons_self, hchars, rfl⟩
    · rintro ⟨y, hy, hyk, rfl⟩
      rcases mem_append.mp hy with hy | hy
      · exact absurd hyk (hne y hy)
      · rw [mem_singleton.mp hy]

lemma Holds.set (hkey : 0 ∈ key) (value : ℕ) :
    Does map (map.set key value) ((m (chars key)).getD 0) (update m (chars key) (some value)) := by
  rcases h.find hkey with ⟨a, x, b, hab, hxk, hfind⟩ | ⟨hne, hfind⟩
  · exact h.set_found hm hab hxk hfind value
  · exact h.set_absent hm hkey hne hfind value

lemma Holds.remove_found
    (hab : chains (home map.hashSize (chars key)) = a ++ x :: b) (hxk : keyOf x = chars key)
    (hfind : map.find key = some (home map.hashSize (chars key), lastId none a, some x.1)) :
    Does map (map.remove key) ((m (chars key)).getD 0) (update m (chars key) none) := by
  have hi := h.home_lt (chars key)
  have hmem : x ∈ chains (home map.hashSize (chars key)) := hab ▸ mem_append_right a mem_cons_self
  have hlinks := h.links _ hi
  have hnodup := h.nodup hi
  have hb := h.bucket _ hi
  rw [hab] at hlinks hnodup hb
  obtain ⟨-, ha, rfl, next, hx, hbs⟩ := (links_append ..).mp hlinks
  rw [map_append, nodup_append, map_cons, nodup_cons] at hnodup
  have hxa : x.1 ∉ a.map Prod.fst := fun hmem => hnodup.2.2 x.1 hmem x.1 mem_cons_self rfl
  have hba : ∀ y ∈ b, y.1 ∉ a.map Prod.fst := fun y hy hmem =>
    hnodup.2.2 y.1 hmem y.1 (mem_cons_of_mem _ (mem_map_of_mem hy)) rfl
  have hne := hb.ne_of_mem
  obtain ⟨map', hbehind, hlinks', hc, hfresh, hheap⟩ := behind_spec ha hnodup.1 next
  have hremove : map.remove key = some ((m (chars key)).getD 0, { map' with heap := update map'.heap x.1 none }) := by
    rw [Hashmap.remove, hfind, bind_some]
    simp only [hx, bind_some]
    rw [hbehind, map_some, hm.eq_some hmem hxk, getD_some]
  refine ⟨_, update chains _ (a ++ b), hremove, hc.hashSize, h.rebuild ⟨hc.hashSize, hc.slots, hc.fresh, hc.table,
    fun k hk hmem => ?_⟩ hi ?_ ?_, hm.update ?_ ?_⟩
  · rw [hab, map_append, map_cons, mem_append, mem_cons, not_or, not_or] at hmem
    exact (update_of_ne hmem.2.1 ..).trans (hheap k hmem.1)
  · have hbs' : Links map'.heap next b none := hbs.congr fun y hy => hheap y.1 (hba y hy)
    exact (links_append ..).mpr ⟨next, hlinks'.update hxa _, hbs'.update hnodup.2.1.1 _⟩
  · exact hfresh ▸ hb.without
  · intro y hy
    have hyx : y ≠ x := fun he => hy (he ▸ hxk)
    simp only [hab, mem_append, mem_cons, hyx, false_or]
  · intro v
    refine iff_of_false (by simp) ?_
    rintro ⟨y, hy, hyk, -⟩
    exact hne y hy (hyk.trans hxk.symm)

lemma Holds.remove (hkey : 0 ∈ key) :
    Does map (map.remove key) ((m (chars key)).getD 0) (update m (chars key) none) := by
  rcases h.find hkey with ⟨a, x, b, hab, hxk, hfind⟩ | ⟨hne, hfind⟩
  · exact h.remove_found hm hab hxk hfind
  · have hnone := hm.eq_none hne
    have hremove : map.remove key = some ((m (chars key)).getD 0, map) := by
      rw [Hashmap.remove, hfind, bind_some, hnone, getD_none]
    rw [← hnone, update_eq_self]
    exact ⟨map, chains, hremove, rfl, h, hm⟩

lemma Holds.get (hkey : 0 ∈ key) :
    map.get key = some ((m (chars key)).getD 0) := by
  rcases h.find hkey with ⟨a, x, b, hab, hxk, hfind⟩ | ⟨hne, hfind⟩
  · have hmem : x ∈ chains (home map.hashSize (chars key)) := hab ▸ mem_append_right a mem_cons_self
    obtain ⟨next, hx⟩ := (h.links _ (h.home_lt (chars key))).cell_of_mem hmem
    rw [Hashmap.get, hfind, bind_some]
    simp only [hx, map_some, hm.eq_some hmem hxk, getD_some]
  · rw [Hashmap.get, hfind, bind_some, hm.eq_none hne, getD_none]

lemma Holds.has (hkey : 0 ∈ key) :
    map.has key = some (m (chars key)).isSome := by
  rcases h.find hkey with ⟨a, x, b, hab, hxk, hfind⟩ | ⟨hne, hfind⟩
  · have hmem : x ∈ chains (home map.hashSize (chars key)) := hab ▸ mem_append_right a mem_cons_self
    rw [Hashmap.has, hfind, map_some, hm.eq_some hmem hxk]
    rfl
  · rw [Hashmap.has, hfind, map_some, hm.eq_none hne]

end

end
end WivOS.Hashmaps
