/-!
# Versions by tool name

The entries of `Versions` are strictly ascending by key, in code point order, so that two maps with
the same entries are equal and are written alike.
-/

namespace NodeInventory

structure Versions where
  entries : List (String × String)
  ascending : entries.Pairwise fun a b => a.1 < b.1
deriving DecidableEq, Repr

namespace Versions

theorem ext {v w : Versions} (h : v.entries = w.entries) : v = w := by
  cases v; cases w; cases h; rfl

def empty : Versions := ⟨[], .nil⟩

/-- Puts a key in its place; a key already there takes the new value. -/
def place (key value : String) : List (String × String) → List (String × String)
  | [] => [(key, value)]
  | entry :: rest =>
      if key < entry.1 then (key, value) :: entry :: rest
      else if entry.1 < key then entry :: place key value rest
      else (key, value) :: rest

theorem key_of_mem_place {key value : String} {entries : List (String × String)}
    {entry : String × String} (h : entry ∈ place key value entries) :
    entry.1 = key ∨ entry ∈ entries := by
  induction entries with
  | nil => simp_all [place]
  | cons head rest ih =>
      simp only [place] at h
      split at h
      · rcases List.mem_cons.1 h with rfl | h
        · exact .inl rfl
        · exact .inr h
      · split at h
        · rcases List.mem_cons.1 h with rfl | h
          · exact .inr (List.mem_cons_self ..)
          · exact (ih h).imp_right (List.mem_cons_of_mem _)
        · rcases List.mem_cons.1 h with rfl | h
          · exact .inl rfl
          · exact .inr (List.mem_cons_of_mem _ h)

theorem pairwise_place (key value : String) {entries : List (String × String)}
    (h : entries.Pairwise fun a b => a.1 < b.1) :
    (place key value entries).Pairwise fun a b => a.1 < b.1 := by
  induction entries with
  | nil => simp [place]
  | cons head rest ih =>
      obtain ⟨hhead, hrest⟩ := List.pairwise_cons.1 h
      simp only [place]
      split
      next lt =>
        refine List.pairwise_cons.2 ⟨fun entry mem => ?_, h⟩
        rcases List.mem_cons.1 mem with rfl | mem
        · exact lt
        · exact String.lt_trans lt (hhead entry mem)
      next nlt =>
        split
        next gt =>
          refine List.pairwise_cons.2 ⟨fun entry mem => ?_, ih hrest⟩
          rcases key_of_mem_place mem with eq | mem
          · exact eq ▸ gt
          · exact hhead entry mem
        next ngt =>
          have eq : key = head.1 :=
            String.le_antisymm (String.not_lt.1 ngt) (String.not_lt.1 nlt)
          exact List.pairwise_cons.2 ⟨fun entry mem => eq ▸ hhead entry mem, hrest⟩

def insert (versions : Versions) (key value : String) : Versions :=
  ⟨place key value versions.entries, pairwise_place key value versions.ascending⟩

/-- The map of a list of entries; of two entries with one key the later counts. -/
def ofList (entries : List (String × String)) : Versions :=
  entries.foldl (fun versions entry => versions.insert entry.1 entry.2) empty

def get? (versions : Versions) (key : String) : Option String :=
  versions.entries.lookup key

end Versions

end NodeInventory
