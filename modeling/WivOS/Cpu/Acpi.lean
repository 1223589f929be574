/-
# ACPI tables

`acpi_get_table` of `kernel/cpu/acpi.c`. The entries of an XSDT are counted as if they were as wide as those of an RSDT,
so that a search can go on behind the table (`acpiGetTable_iff`).
-/
import WivOS.Lib.Loop
import WivOS.Utils.Strings

namespace WivOS.Acpi

open List Option Utils

structure Sdt where
  signature : List Byte
  four : signature.length = 4

structure RootTable where
  length : ℕ
  sdtAddresses : List ℕ

structure Tables where
  xsdtTable : Option RootTable
  rsdtTable : RootTable
  sdtAt : ℕ → Sdt
  dsdtAt : ℕ → ℕ

def sizeofSdt : ℕ := 36

/-- The search loop, for `entries` more rounds. Reading an address behind the table is a fault. -/
def searchLoop (sdtAt : ℕ → Sdt) (addresses : List ℕ) (sig : List Byte) (index : ℕ) : ℕ → ℕ → ℕ → Option (Option ℕ)
  | 0, _, _ => some none
  | entries + 1, i, curr => do
    let address ← addresses[i]?
    let order ← strncmp 4 (sdtAt address).signature sig
    if order = 0 then
      if curr = index then some (some address) else searchLoop sdtAt addresses sig index entries (i + 1) (curr + 1)
    else searchLoop sdtAt addresses sig index entries (i + 1) curr

def searchTables (t : Tables) (sig : List Byte) (index : ℕ) : Option (Option ℕ) :=
  match t.xsdtTable with
  | some xsdt => searchLoop t.sdtAt xsdt.sdtAddresses sig index ((xsdt.length - sizeofSdt) / 4) 0 0
  | none => searchLoop t.sdtAt t.rsdtTable.sdtAddresses sig index ((t.rsdtTable.length - sizeofSdt) / 4) 0 0

def dsdt : List Byte := [0x44, 0x53, 0x44, 0x54]

def facp : List Byte := [0x46, 0x41, 0x43, 0x50]

def acpiGetTable (t : Tables) (sig : List Byte) (index : ℕ) : Option (Option ℕ) := do
  let order ← strncmp 4 sig dsdt
  if order = 0 then
    if index > 0 then some none
    else
      match ← searchTables t facp 0 with
      | some fadt => some (some (t.dsdtAt fadt))
      | none => none
  else searchTables t sig index

lemma strncmp_spec : ∀ {n : ℕ} {s1 s2 : List Byte}, n ≤ s1.length → n ≤ s2.length → 0 ∉ s2.take n →
    ∃ r, strncmp n s1 s2 = some r ∧ (r = 0 ↔ s1.take n = s2.take n)
  | 0, _, _, _, _, _ => ⟨0, rfl, by simp⟩
  | n + 1, a :: s1, b :: s2, h1, h2, h0 => by
    rw [take_succ_cons, mem_cons, not_or] at h0
    by_cases hab : a = b
    · obtain ⟨r, hr, heq⟩ := strncmp_spec (Nat.le_of_succ_le_succ h1) (Nat.le_of_succ_le_succ h2) h0.2
      exact ⟨r, by rw [strncmp, if_pos ⟨hab, fun ha => h0.1 (ha.symm.trans hab)⟩, hr], by simp [heq, hab]⟩
    · refine ⟨-1, ?_, by simp [hab]⟩
      rw [strncmp, if_neg fun h => hab h.1]
      rcases Nat.lt_or_gt_of_ne fun heq => hab (BitVec.eq_of_toNat_eq heq) with hlt | hlt
      · exact if_pos hlt
      · exact (if_neg (Nat.lt_asymm hlt)).trans (if_pos hlt)

structure Signature (sig : List Byte) : Prop where
  four : 4 ≤ sig.length
  chars : 0 ∉ sig.take 4

def withSignature (sdtAt : ℕ → Sdt) (sig : List Byte) (addresses : List ℕ) : List ℕ :=
  addresses.filter fun a => (sdtAt a).signature = sig.take 4

variable {sdtAt : ℕ → Sdt} {addresses : List ℕ} {sig : List Byte} {index : ℕ}

/-- What the search comes to: the table among those it can see, or the end of its rounds or of the table. -/
lemma searchLoop_eq (hsig : Signature sig) : ∀ (entries i curr : ℕ), curr ≤ index →
    searchLoop sdtAt addresses sig index entries i curr =
      match (withSignature sdtAt sig ((addresses.drop i).take entries))[index - curr]? with
      | some a => some (some a)
      | none => if entries ≤ addresses.length - i then some none else none
  | 0, i, curr, _ => by simp [searchLoop, withSignature]
  | entries + 1, i, curr, hcurr => by
    rcases Nat.lt_or_ge i addresses.length with hi | hi
    · obtain ⟨order, horder, hzero⟩ := strncmp_spec (sdtAt addresses[i]).four.ge hsig.four hsig.chars
      rw [take_of_length_le (sdtAt addresses[i]).four.le] at hzero
      have hdrop : (addresses.drop i).take (entries + 1) = addresses[i] :: (addresses.drop (i + 1)).take entries := by
        rw [← getElem_cons_drop hi, take_succ_cons]
      have hle : (entries + 1 ≤ addresses.length - i) = (entries ≤ addresses.length - (i + 1)) := propext (by omega)
      simp only [searchLoop, getElem?_eq_getElem hi, horder, bind_eq_bind, bind_some, hdrop, withSignature,
        filter_cons, decide_eq_true_eq, ← hzero, hle]
      by_cases h0 : order = 0
      · rw [if_pos h0, if_pos h0]
        by_cases heq : curr = index
        · simp [heq]
        · rw [if_neg heq, searchLoop_eq hsig entries (i + 1) (curr + 1) (by omega),
            show index - curr = index - (curr + 1) + 1 by omega]
          rfl
      · rw [if_neg h0, if_neg h0, searchLoop_eq hsig entries (i + 1) curr hcurr]
        rfl
    · simp [searchLoop, getElem?_eq_none hi, drop_eq_nil_of_le hi, withSignature,
        show addresses.length - i = 0 by omega]

def encoded (isXsdt : Bool) (addresses : List ℕ) (sdtAt : ℕ → Sdt) (dsdtAt : ℕ → ℕ) : Tables :=
  if isXsdt then ⟨some ⟨sizeofSdt + 8 * addresses.length, addresses⟩, ⟨0, []⟩, sdtAt, dsdtAt⟩
  else ⟨none, ⟨sizeofSdt + 4 * addresses.length, addresses⟩, sdtAt, dsdtAt⟩

/-- **A table is found in its place**, or missed without a look behind the list, exactly if the list is an RSDT or empty,
or has the table. -/
theorem acpiGetTable_iff (isXsdt : Bool) (addresses : List ℕ) (sdtAt : ℕ → Sdt) (dsdtAt : ℕ → ℕ) (sig : List Byte)
    (index : ℕ) (hsig : Signature sig) (hdsdt : sig.take 4 ≠ dsdt) :
    acpiGetTable (encoded isXsdt addresses sdtAt dsdtAt) sig index = some (withSignature sdtAt sig addresses)[index]? ↔
      isXsdt = false ∨ addresses = [] ∨ index < (withSignature sdtAt sig addresses).length := by
  have hsearch : acpiGetTable (encoded isXsdt addresses sdtAt dsdtAt) sig index =
      searchLoop sdtAt addresses sig index ((if isXsdt then 2 else 1) * addresses.length) 0 0 := by
    obtain ⟨order, horder, hzero⟩ := @strncmp_spec 4 sig dsdt hsig.four (le_refl 4) (by decide)
    simp only [acpiGetTable, horder, bind_eq_bind, bind_some, if_neg (mt hzero.mp hdsdt)]
    cases isXsdt
    · simp [encoded, searchTables]
    · simp [encoded, searchTables, show 8 * addresses.length / 4 = 2 * addresses.length by omega]
  have hall : addresses.take ((if isXsdt then 2 else 1) * addresses.length) = addresses :=
    take_of_length_le (by split <;> omega)
  rw [hsearch, searchLoop_eq hsig _ 0 0 (Nat.zero_le _), drop_zero, hall, Nat.sub_zero, Nat.sub_zero]
  rcases Nat.lt_or_ge index (withSignature sdtAt sig addresses).length with hlt | hge
  · simp [hlt]
  · rw [getElem?_eq_none hge]
    cases isXsdt
    · simp
    · have hempty : 2 * addresses.length ≤ addresses.length ↔ addresses = [] := by rw [← length_eq_zero_iff]; omega
      simp [Nat.not_lt.mpr hge, hempty]

def apic : List Byte := [0x41, 0x50, 0x49, 0x43]

/-- One table, which is not the one asked for: the XSDT of one entry is searched for two. -/
theorem xsdt_read_behind : acpiGetTable (encoded true [0x1000] (fun _ => ⟨facp, rfl⟩) id) apic 0 = none ∧
      acpiGetTable (encoded false [0x1000] (fun _ => ⟨facp, rfl⟩) id) apic 0 = some none := by
  decide

theorem second_table : acpiGetTable (encoded true [0x1000, 0x2000] (fun _ => ⟨apic, rfl⟩) id) apic 1 =
    some (withSignature (fun _ => ⟨apic, rfl⟩) apic [0x1000, 0x2000])[1]? :=
  (acpiGetTable_iff true [0x1000, 0x2000] (fun _ => ⟨apic, rfl⟩) id apic 1 ⟨by decide, by decide⟩ (by decide)).mpr
  (by decide)

end WivOS.Acpi
