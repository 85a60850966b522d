import Mathlib.Data.List.Forall2
import Mathlib.Data.List.Sort
import NodeInventory.Proofs.Node.HardwareAddress

/-!
# Identities

Two boot records have one identity where their identifiers are equal and their hardware addresses
are spellings of one address.  Identities are totally ordered, so the set of some identities is one
list, however they come in.
-/

namespace NodeInventory

open Text

/-! ## Spellings of an address -/

/-- The characters that stand for each other in a hardware address. -/
inductive MacAlike : Char → Char → Prop
  | same (c : Char) : MacAlike c c
  | capital {c d : Char} (letters : IsCapitalOf c d) : MacAlike c d
  | small {c d : Char} (letters : IsCapitalOf d c) : MacAlike c d
  | dash : MacAlike '-' ':'
  | colon : MacAlike ':' '-'

/-- Two spellings of one address: character by character, whatever the blanks around them. -/
def SpellsMac (mac mac' : String) : Prop :=
  List.Forall₂ MacAlike (trim mac.toList) (trim mac'.toList)

/-- A dash, a capital, or a character that stays as it is. -/
theorem macChar_cases (c : Char) :
    (c = '-' ∧ macChar c = ':') ∨ IsCapitalOf c (macChar c) ∨ macChar c = c := by
  by_cases dash : c = '-'
  · rw [dash]
    exact .inl ⟨rfl, rfl⟩
  rw [macChar, if_neg dash]
  rcases eq_toLower_or_isCapitalOf c with same | letters
  · exact .inr (.inr same.symm)
  · exact .inr (.inl letters)

theorem macChar_of_isCapitalOf {c d : Char} (letters : IsCapitalOf c d) :
    macChar c = d ∧ macChar d = d := by
  obtain ⟨capital, rfl⟩ := isCapitalOf_iff.1 letters
  have other : c ≠ '-' := by
    rintro rfl
    cases capital
  have lowered : macChar c = c.toLower := by rw [macChar, if_neg other]
  rw [lowered]
  refine ⟨rfl, macChar_of_small ?_ (isUpper_toLower c)⟩
  rw [← lowered]
  exact macChar_ne_dash c

/-- No letter is read as a colon. -/
theorem not_isCapitalOf_colon (c : Char) : ¬IsCapitalOf c ':' := by
  rintro ⟨ge, -, eq⟩
  have code : (58 : Nat) = c.toNat + 32 := eq
  have least : 65 ≤ c.toNat := ge
  omega

theorem macAlike_of_macChar_eq {c d : Char} (eq : macChar c = macChar d) : MacAlike c d := by
  rcases macChar_cases c with ⟨rfl, colon⟩ | letters | same <;>
    rcases macChar_cases d with ⟨rfl, colon'⟩ | letters' | same'
  · exact .same _
  · rw [← eq, colon] at letters'
    exact absurd letters' (not_isCapitalOf_colon d)
  · rw [← same', ← eq, colon]
    exact .dash
  · rw [eq, colon'] at letters
    exact absurd letters (not_isCapitalOf_colon c)
  · rw [← eq] at letters'
    rw [letters.unique letters']
    exact .same d
  · rw [eq, same'] at letters
    exact .capital letters
  · rw [← same, eq, colon']
    exact .colon
  · rw [← eq, same] at letters'
    exact .small letters'
  · rw [← same, eq, same']
    exact .same d

theorem macChar_eq_iff {c d : Char} : macChar c = macChar d ↔ MacAlike c d := by
  refine ⟨macAlike_of_macChar_eq, fun alike => ?_⟩
  cases alike with
  | same => rfl
  | capital letters =>
      obtain ⟨left, right⟩ := macChar_of_isCapitalOf letters
      rw [left, right]
  | small letters =>
      obtain ⟨left, right⟩ := macChar_of_isCapitalOf letters
      rw [left, right]
  | dash => rfl
  | colon => rfl

theorem normalizeMac_eq_iff {mac mac' : String} :
    normalizeMac mac = normalizeMac mac' ↔ SpellsMac mac mac' := by
  rw [← String.toList_inj, toList_normalizeMac, toList_normalizeMac, ← List.forall₂_eq_eq_eq,
    List.forall₂_map_left_iff, List.forall₂_map_right_iff, SpellsMac]
  simp only [macChar_eq_iff]

/-! ## Order -/

/-- Code points compared one after the other. -/
def ComesBefore (s t : String) : Prop :=
  List.Lex (fun c d : Char => c.toNat < d.toNat) s.toList t.toList

namespace Identity

variable {a b c : Identity}

theorem lt_irrefl (a : Identity) : ¬a < a := by
  rintro (lt | ⟨-, lt⟩)
  · exact String.lt_irrefl _ lt
  · exact String.lt_irrefl _ lt

theorem lt_trans (lt : a < b) (lt' : b < c) : a < c := by
  rcases lt with lt | ⟨eq, lt⟩
  · rcases lt' with lt' | ⟨eq', -⟩
    · exact .inl (String.lt_trans lt lt')
    · exact .inl (eq' ▸ lt)
  · rcases lt' with lt' | ⟨eq', lt'⟩
    · exact .inl (eq ▸ lt')
    · exact .inr ⟨eq.trans eq', String.lt_trans lt lt'⟩

theorem eq_of_not_lt (not_below : ¬a < b) (not_above : ¬b < a) : a = b := by
  have antisymm {s t : String} (not_below : ¬s < t) (not_above : ¬t < s) : s = t :=
    String.le_antisymm (String.not_lt.1 not_above) (String.not_lt.1 not_below)
  have mac : a.mac = b.mac :=
    antisymm (fun lt => not_below (.inl lt)) fun lt => not_above (.inl lt)
  have uuid : a.uuid = b.uuid :=
    antisymm (fun lt => not_below (.inr ⟨mac, lt⟩)) fun lt => not_above (.inr ⟨mac.symm, lt⟩)
  cases a
  cases b
  cases mac
  cases uuid
  rfl

instance : IsStrictTotalOrder Identity (· < ·) where
  irrefl := lt_irrefl
  trans _ _ _ := lt_trans
  trichotomous _ _ := eq_of_not_lt

/-! ## Sets of identities -/

theorem mem_insert {identities : List Identity} :
    a ∈ insert b identities ↔ a = b ∨ a ∈ identities := by
  induction identities with
  | nil => exact List.mem_cons
  | cons head rest ih =>
      rw [insert]
      split
      next => exact List.mem_cons
      next not_below =>
      split
      next => rw [List.mem_cons, List.mem_cons, ih, or_left_comm]
      next not_above =>
        rw [eq_of_not_lt not_below not_above, List.mem_cons, ← or_assoc, or_self]

theorem pairwise_insert {identities : List Identity} (ascending : identities.Pairwise (· < ·))
    (a : Identity) : (insert a identities).Pairwise (· < ·) := by
  induction identities with
  | nil => exact List.pairwise_singleton _ a
  | cons head rest ih =>
      obtain ⟨least, later⟩ := List.pairwise_cons.1 ascending
      rw [insert]
      split
      next below =>
        refine List.pairwise_cons.2 ⟨fun b mem => ?_, ascending⟩
        rcases List.mem_cons.1 mem with rfl | mem
        · exact below
        · exact lt_trans below (least b mem)
      next =>
      split
      next above =>
        refine List.pairwise_cons.2 ⟨fun b mem => ?_, ih later⟩
        rcases mem_insert.1 mem with rfl | mem
        · exact above
        · exact least b mem
      next => exact ascending

/-- What identities that are put in their places one by one amount to. -/
theorem foldl_insert (identities : List Identity) {found : List Identity}
    (ascending : found.Pairwise (· < ·)) :
    let all := identities.foldl (fun found identity => insert identity found) found
    all.Pairwise (· < ·) ∧ ∀ a, a ∈ all ↔ a ∈ identities ∨ a ∈ found := by
  induction identities generalizing found with
  | nil => exact ⟨ascending, fun a => by simp⟩
  | cons identity identities ih =>
      obtain ⟨ordered, members⟩ := ih (pairwise_insert ascending identity)
      refine ⟨ordered, fun a => (members a).trans ?_⟩
      rw [mem_insert, List.mem_cons, or_left_comm, or_assoc]

theorem pairwise_collect (identities : List Identity) :
    (collect identities).Pairwise (· < ·) := (foldl_insert identities .nil).1

theorem mem_collect {identities : List Identity} : a ∈ collect identities ↔ a ∈ identities :=
  ((foldl_insert identities .nil).2 a).trans (or_iff_left List.not_mem_nil)

theorem collect_eq_iff {identities identities' : List Identity} :
    collect identities = collect identities' ↔ ∀ a, a ∈ identities ↔ a ∈ identities' := by
  constructor
  · intro eq a
    rw [← mem_collect, eq, mem_collect]
  · intro same
    refine (pairwise_collect identities).eq_of_mem_iff (pairwise_collect identities') fun a => ?_
    rw [mem_collect, mem_collect, same]

end Identity

/-- Boot records have one identity exactly where the identifiers are equal and the hardware
addresses differ in nothing but blanks around them, the case of ASCII letters, and dashes for
colons.  Identities are totally ordered, normal hardware addresses first and identifiers second, and
the set of some identities depends neither on their order nor on repetitions. -/
theorem BootRecord.identity_laws (mac mac' uuid uuid' : String)
    (identities identities' : List Identity) :
    ((BootRecord.of mac uuid).identity = (BootRecord.of mac' uuid').identity ↔
      uuid = uuid' ∧ SpellsMac mac mac') ∧
    normalizeMac (normalizeMac mac) = normalizeMac mac ∧
    IsStrictTotalOrder Identity (· < ·) ∧
    ((BootRecord.of mac uuid).identity < (BootRecord.of mac' uuid').identity ↔
      ComesBefore (normalizeMac mac) (normalizeMac mac') ∨
        normalizeMac mac = normalizeMac mac' ∧ ComesBefore uuid uuid') ∧
    (Identity.collect identities).Pairwise (· < ·) ∧
    (∀ a, a ∈ Identity.collect identities ↔ a ∈ identities) ∧
    (Identity.collect identities = Identity.collect identities' ↔
      ∀ a, a ∈ identities ↔ a ∈ identities') := by
  refine ⟨?_, normalizeMac_normalizeMac mac, inferInstance, Iff.rfl,
    Identity.pairwise_collect identities, fun _ => Identity.mem_collect, Identity.collect_eq_iff⟩
  rw [identity, identity, Identity.mk.injEq, BootRecord.of, BootRecord.of, normalizeMac_eq_iff,
    and_comm]

end NodeInventory
