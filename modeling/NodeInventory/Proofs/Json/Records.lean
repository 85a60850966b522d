import NodeInventory.Proofs.Json.Typed

/-!
# What records are read from

Both forms of a record come down to the same thing: which text, if any, each field has.  What has
been read of an object at some member, or of an array at some item, is a list of fields, and only
what each field leads to in it counts.
-/

namespace NodeInventory.Json

/-! ## Texts of records -/

/-- The values of the members that have one of the given keys. -/
def valuesUnder (keys : List String) (members : List (String × List UInt8)) : List (List UInt8) :=
  (members.filter fun member => member.1 ∈ keys).map (·.2)

/-- A record in which each field is written with the given value, or is missing.  As an object it
has the fields in any order, each under one of its keys, and any members with other keys; as an
array it has them in order, and those at the end may be missing. -/
inductive IsRecord (keys : List (List String)) (values : List (Option (List UInt8))) :
    List UInt8 → Prop
  | object {members : List (String × List UInt8)} {text : List UInt8} : IsObject members text →
      (∀ member ∈ members, IsJson member.2) →
      List.Forall₂ (fun keys value => valuesUnder keys members = value.toList) keys values →
      IsRecord keys values text
  | array {items : List (List UInt8)} {missing : Nat} {text : List UInt8} : IsArray items text →
      items.length + missing = keys.length →
      values = items.map some ++ List.replicate missing none → IsRecord keys values text

theorem IsRecord.opens {keys : List (List String)} {values : List (Option (List UInt8))}
    {text : List UInt8} (h : IsRecord keys values text) : Opens text := by
  cases h with
  | object isObject _ _ => exact isObject.opens
  | array isArray _ _ => exact isArray.opens

/-- A record whose values are JSON is JSON. -/
theorem IsRecord.isJson {keys : List (List String)} {values : List (Option (List UInt8))}
    {text : List UInt8} (h : IsRecord keys values text)
    (json : ∀ value, some value ∈ values → IsJson value) : IsJson text := by
  cases h with
  | object isObject members_json _ => exact isObject.isJson members_json
  | array isArray _ eq =>
      refine .array isArray fun item mem => json item ?_
      rw [eq]
      exact List.mem_append_left _ (List.mem_map_of_mem mem)

theorem valuesUnder_cons_of_mem {keys : List String} {name : String} (h : name ∈ keys)
    (value : List UInt8) (members : List (String × List UInt8)) :
    valuesUnder keys ((name, value) :: members) = value :: valuesUnder keys members := by
  simp [valuesUnder, h]

theorem valuesUnder_cons_of_not_mem {keys : List String} {name : String} (h : name ∉ keys)
    (value : List UInt8) (members : List (String × List UInt8)) :
    valuesUnder keys ((name, value) :: members) = valuesUnder keys members := by
  simp [valuesUnder, h]

namespace Shape

variable {ν α : Type}

/-- What a shape reads: the keys of each field, the spellings of its values, and that the order in
which fields are read makes no difference to the record. -/
structure Spelled (shape : Shape ν α) (keys : String → List String)
    (spells : String → ν → List UInt8 → Prop) : Prop where
  nodup : shape.names.Nodup
  field?_eq_some : ∀ {field name}, field ∈ shape.names →
    (shape.field? name = some field ↔ name ∈ keys field)
  reads : ∀ field ∈ shape.names, (shape.value field).Reads (spells field)
  isJson : ∀ {field v text}, spells field v text → IsJson text
  build_congr : ∀ {fields fields' : List (String × ν)},
    (∀ field ∈ shape.names, fields.lookup field = fields'.lookup field) →
      shape.build fields = shape.build fields'

/-- The text of a record: each field that it has is spelled there, and no other. -/
def Presents (shape : Shape ν α) (keys : String → List String)
    (spells : String → ν → List UInt8 → Prop) (record : α) (text : List UInt8) : Prop :=
  ∃ fields values, shape.build fields = some record ∧
    List.Forall₂ (fun field value => Option.Rel (spells field) (fields.lookup field) value)
      shape.names values ∧
    IsRecord (shape.names.map keys) values text

section Named

variable {shape : Shape ν α} {keys : String → List String} {spells : String → ν → List UInt8 → Prop}

theorem Spelled.not_mem_keys (spelled : shape.Spelled keys spells) {field name : String}
    (isField : field ∈ shape.names) (other : shape.field? name ≠ some field) :
    name ∉ keys field := fun mem => other ((spelled.field?_eq_some isField).2 mem)

theorem mem_names_of_field? {name field : String} (h : shape.field? name = some field) :
    field ∈ shape.names := by
  unfold field? at h
  dsimp only at h
  split at h <;> cases h
  assumption

/-- What a member adds to the fields before it. -/
inductive Adds (shape : Shape ν α) (spells : String → ν → List UInt8 → Prop) :
    List (String × ν) → List (String × ν) → String × List UInt8 → Prop
  | pass {name : String} {value : List UInt8} {fields : List (String × ν)} :
      shape.field? name = none → IsJson value → Adds shape spells fields fields (name, value)
  | take {name field : String} {value : List UInt8} {v : ν} {fields : List (String × ν)} :
      shape.field? name = some field → fields.lookup field = none → spells field v value →
      Adds shape spells fields ((field, v) :: fields) (name, value)

theorem any_eq_lookup (fields : List (String × ν)) (field : String) :
    fields.any (·.1 == field) = (fields.lookup field).isSome := by
  induction fields with
  | nil => rfl
  | cons entry fields ih =>
      rw [List.any_cons, List.lookup_cons, ih, Bool.beq_comm]
      cases field == entry.1 <;> rfl

theorem fieldReader_reads (spelled : shape.Spelled keys spells) (fields : List (String × ν)) :
    (shape.fieldReader fields).Reads fun next piece => ∃ member : String × List UInt8,
      shape.Adds spells fields next member ∧
        IsMember (SpellsString member.1) member.2 piece where
  opens := fun ⟨_, _, isMember⟩ => (isMember.imp SpellsString.isString).opens
  complete := by
    rintro next blanks piece rest before ⟨_, adds, isMember⟩ delimited
    cases adds with
    | pass unknown json =>
        obtain ⟨colon, behind, blank, named, marked⟩ := key_mark_of_isMember before isMember rest
        simp only [fieldReader, memberAt, named, unknown, marked,
          skipValue_append blank json delimited, Except.map]
    | take known fresh value =>
        obtain ⟨colon, behind, blank, named, marked⟩ := key_mark_of_isMember before isMember rest
        have read :=
          (spelled.reads _ (mem_names_of_field? known)).complete blank value delimited
        simp only [fieldReader, memberAt, named, known, any_eq_lookup, fresh, marked, read,
          Except.map, Option.isSome_none, Bool.false_eq_true, if_false]
  sound := by
    intro next bytes rest h
    unfold fieldReader memberAt at h
    dsimp only at h
    split at h
    next => cases h
    next name colon named =>
    split at h
    next unknown =>
      split at h
      next => cases h
      next marked =>
        obtain ⟨_, passed, eq⟩ := map_eq_ok h
        cases eq
        obtain ⟨behind, value, blank, json, rfl⟩ := skipValue_eq_ok passed
        obtain ⟨blanks, piece, before, isMember, eq⟩ := isMember_of_key_mark named marked blank
        exact ⟨blanks, piece, before, ⟨(name, value), .pass unknown json, isMember⟩, eq⟩
    next field known =>
      rw [any_eq_lookup] at h
      split at h
      next => cases h
      next fresh =>
        split at h
        next => cases h
        next marked =>
          obtain ⟨⟨v, _⟩, read, eq⟩ := map_eq_ok h
          cases eq
          obtain ⟨behind, value, blank, spelled, rfl⟩ :=
            (spelled.reads _ (mem_names_of_field? known)).sound read
          obtain ⟨blanks, piece, before, isMember, eq⟩ := isMember_of_key_mark named marked blank
          have fresh := Option.not_isSome_iff_eq_none.1 fresh
          exact ⟨blanks, piece, before, ⟨(name, value), .take known fresh spelled, isMember⟩, eq⟩

/-- A field that is there before the members has none of them; another one has one at most, and is
there behind them if it has one. -/
theorem rel_of_chain (spelled : shape.Spelled keys spells) {fields final : List (String × ν)}
    {members : List (String × List UInt8)}
    (chain : Chain (shape.Adds spells) fields members final) {field : String}
    (isField : field ∈ shape.names) {value : Option (List UInt8)}
    (rel : Option.Rel (spells field) (fields.lookup field) value) :
    ∃ found, Option.Rel (spells field) (final.lookup field) found ∧
      found.toList = value.toList ++ valuesUnder (keys field) members := by
  -- `value` is the field's text so far; a member that would give it a second one is refused
  induction chain generalizing value with
  | nil => exact ⟨value, rel, (List.append_nil _).symm⟩
  | @cons fields next final member members adds _ ih =>
      cases adds with
      | @pass name _ _ unknown json =>
          have other : name ∉ keys field := spelled.not_mem_keys isField (by simp [unknown])
          rw [valuesUnder_cons_of_not_mem other]
          exact ih rel
      | @take name field' piece v _ known fresh spells_v =>
          by_cases same : field = field'
          · subst same
            rw [valuesUnder_cons_of_mem ((spelled.field?_eq_some isField).1 known)]
            rw [fresh] at rel
            cases rel
            have now : Option.Rel (spells field) (((field, v) :: fields).lookup field)
                (some piece) := by
              rw [List.lookup_cons_self]
              exact .some spells_v
            exact ih now
          · have other : name ∉ keys field :=
              spelled.not_mem_keys isField (by simpa [known] using Ne.symm same)
            rw [valuesUnder_cons_of_not_mem other]
            refine ih ?_
            rw [List.lookup_cons, beq_false_of_ne same]
            exact rel

theorem isJson_of_chain (spelled : shape.Spelled keys spells) {fields final : List (String × ν)}
    {members : List (String × List UInt8)}
    (chain : Chain (shape.Adds spells) fields members final) :
    ∀ member ∈ members, IsJson member.2 := by
  induction chain with
  | nil => exact List.forall_mem_nil _
  | cons adds _ ih =>
      refine List.forall_mem_cons.2 ⟨?_, ih⟩
      cases adds with
      | pass _ json => exact json
      | take _ _ value => exact spelled.isJson value

/-- What is still to be read of a field before some members: nothing, or its only value. -/
inductive Pending (spells : ν → List UInt8 → Prop) (wanted : Option ν) :
    Option ν → List (List UInt8) → Prop
  | done : Pending spells wanted wanted []
  | value {v : ν} {value : List UInt8} : wanted = some v → spells v value →
      Pending spells wanted none [value]

theorem pending_of_rel {spells : ν → List UInt8 → Prop} {wanted : Option ν}
    {value : Option (List UInt8)} {values : List (List UInt8)}
    (rel : Option.Rel spells wanted value) (eq : values = value.toList) :
    Pending spells wanted none values := by
  subst eq
  cases rel with
  | some spelled => exact .value rfl spelled
  | none => exact .done

theorem chain_of_pending (spelled : shape.Spelled keys spells) {fields wanted : List (String × ν)}
    {members : List (String × List UInt8)} (json : ∀ member ∈ members, IsJson member.2)
    (pending : ∀ field ∈ shape.names, Pending (spells field) (wanted.lookup field)
      (fields.lookup field) (valuesUnder (keys field) members)) :
    ∃ final, Chain (shape.Adds spells) fields members final ∧
      ∀ field ∈ shape.names, final.lookup field = wanted.lookup field := by
  -- a member under an unknown key leaves all fields pending, any other one settles its own
  induction members generalizing fields with
  | nil =>
      refine ⟨fields, .nil, fun field isField => ?_⟩
      have pending := pending field isField
      generalize fields.lookup field = found at pending ⊢
      cases pending
      rfl
  | cons member members ih =>
      obtain ⟨name, value⟩ := member
      obtain ⟨value_json, json⟩ := List.forall_mem_cons.1 json
      cases known : shape.field? name with
      | none =>
          have still : ∀ field ∈ shape.names, Pending (spells field) (wanted.lookup field)
              (fields.lookup field) (valuesUnder (keys field) members) := fun field isField => by
            have other : name ∉ keys field := spelled.not_mem_keys isField (by simp [known])
            rw [← valuesUnder_cons_of_not_mem other value]
            exact pending field isField
          obtain ⟨final, chain, agree⟩ := ih json still
          exact ⟨final, .cons (.pass known value_json) chain, agree⟩
      | some field =>
          have isField := mem_names_of_field? known
          have here := pending field isField
          rw [valuesUnder_cons_of_mem ((spelled.field?_eq_some isField).1 known)] at here
          generalize before : fields.lookup field = found at here
          generalize later : valuesUnder (keys field) members = values at here
          cases here with
          | @value v _ is_wanted spells_v =>
              have still : ∀ field' ∈ shape.names, Pending (spells field') (wanted.lookup field')
                  (((field, v) :: fields).lookup field') (valuesUnder (keys field') members) := by
                intro field' isField'
                by_cases same : field' = field
                · rw [same, List.lookup_cons_self, later, is_wanted]
                  exact .done
                · have other : name ∉ keys field' :=
                    spelled.not_mem_keys isField' (by simpa [known] using Ne.symm same)
                  rw [List.lookup_cons, beq_false_of_ne same,
                    ← valuesUnder_cons_of_not_mem other value]
                  exact pending field' isField'
              obtain ⟨final, chain, agree⟩ := ih json still
              exact ⟨final, .cons (.take known before spells_v) chain, agree⟩

end Named

section Positional

variable {shape : Shape ν α} {spells : String → ν → List UInt8 → Prop}

/-- The items of an array give the first of the named fields their values. -/
inductive Fills (spells : String → ν → List UInt8 → Prop) :
    List String → List (List UInt8) → List (String × ν) → List (String × ν) → Prop
  | done {names : List String} {fields : List (String × ν)} : Fills spells names [] fields fields
  | next {name : String} {names : List String} {v : ν} {item : List UInt8}
      {items : List (List UInt8)} {fields final : List (String × ν)} :
      spells name v item → Fills spells names items ((name, v) :: fields) final →
      Fills spells (name :: names) (item :: items) fields final

theorem positional_append {names : List String} {items : List (List UInt8)}
    {fields final : List (String × ν)} (fills : Fills spells names items fields final)
    (reads : ∀ name ∈ names, (shape.value name).Reads (spells name)) {more : Bool}
    {text : List UInt8} (enclosed : Enclosed .array more items text) (rest : List UInt8) :
    shape.positional more fields names (text ++ rest) = .ok (final, rest) := by
  induction fills generalizing more text with
  | @done names fields =>
      cases enclosed with
      | @close _ before blank =>
          rw [List.append_assoc, List.singleton_append]
          cases names with
          | nil =>
              have closed : mark (ascii ']') (before ++ Bracket.array.close :: rest) = .ok rest :=
                mark_append blank (by decide) rest
              rw [positional, closed]
              rfl
          | cons name names =>
              have closed : turn (ascii ']') more (before ++ Bracket.array.close :: rest) =
                .ok (.closed rest) := turn_close blank rest
              simp only [positional, closed]
  | @next name names v item items fields final value _ ih =>
      obtain ⟨first, later⟩ := List.forall_mem_cons.1 reads
      cases enclosed with
      | @first _ tail before _ blank enclosed =>
          have read := first.complete blanks_nil value (delimited_enclosed enclosed rest)
          have turned : turn (ascii ']') false (before ++ (item ++ (tail ++ rest))) = _ :=
            show turn Bracket.array.close false _ = _ from turn_item blank (first.opens value) _
          rw [List.nil_append] at read
          simp only [positional, List.append_assoc, turned, read]
          exact ih later enclosed
      | @next _ tail before behind _ blank blank' enclosed =>
          have read := first.complete blank' value (delimited_enclosed enclosed rest)
          have turned : turn (ascii ']') true
              (before ++ ascii ',' :: (behind ++ (item ++ (tail ++ rest)))) = _ :=
            show turn Bracket.array.close true _ = _ from turn_next blank _
          simp only [positional, List.append_assoc, List.cons_append, turned, read]
          exact ih later enclosed

theorem fills_of_positional {names : List String} {fields final : List (String × ν)}
    (reads : ∀ name ∈ names, (shape.value name).Reads (spells name)) {more : Bool}
    {bytes rest : List UInt8} (h : shape.positional more fields names bytes = .ok (final, rest)) :
    ∃ items text, Enclosed .array more items text ∧ Fills spells names items fields final ∧
      bytes = text ++ rest := by
  induction names generalizing more fields bytes with
  | nil =>
      obtain ⟨_, closed, eq⟩ := map_eq_ok h
      cases eq
      obtain ⟨blanks, before, rfl⟩ := mark_eq_ok closed
      exact ⟨[], _, .close before, .done, by simp [Bracket.close]⟩
  | cons name names ih =>
      obtain ⟨first, later⟩ := List.forall_mem_cons.1 reads
      unfold positional at h
      split at h
      next => cases h
      next turned =>
        cases h
        obtain ⟨blanks, before, rfl⟩ := turn_eq_closed turned
        exact ⟨[], _, .close before, .done, by simp [Bracket.close]⟩
      next turned =>
        split at h
        next => cases h
        next read =>
          obtain ⟨items, text, enclosed, fills, rfl⟩ := ih later h
          obtain ⟨behind, item, blank, value, rfl⟩ := first.sound read
          obtain ⟨blanks, before, rfl⟩ := turn_eq_item turned
          cases more with
          | false =>
              exact ⟨item :: items, _, .first (blanks_append before blank) enclosed,
                .next value fills, by simp⟩
          | true =>
              exact ⟨item :: items, _, .next before blank enclosed, .next value fills, by simp⟩

/-- Fields that are not named are left as they are. -/
theorem Fills.lookup_eq {names : List String} {items : List (List UInt8)}
    {fields final : List (String × ν)} (fills : Fills spells names items fields final)
    {field : String} (other : field ∉ names) : final.lookup field = fields.lookup field := by
  induction fills with
  | done => rfl
  | next _ _ ih =>
      rw [List.mem_cons, not_or] at other
      rw [ih other.2, List.lookup_cons, beq_false_of_ne other.1]

theorem fresh_cons {name : String} {names : List String} (not_mem : name ∉ names) (v : ν)
    {fields : List (String × ν)} (fresh : ∀ name ∈ names, fields.lookup name = none) :
    ∀ name' ∈ names, ((name, v) :: fields).lookup name' = none := by
  intro name' mem
  have ne : name' ≠ name := fun eq => not_mem (eq ▸ mem)
  rw [List.lookup_cons, beq_false_of_ne ne]
  exact fresh name' mem

theorem Fills.rel {names : List String} {items : List (List UInt8)}
    {fields final : List (String × ν)} (fills : Fills spells names items fields final)
    (nodup : names.Nodup) (fresh : ∀ name ∈ names, fields.lookup name = none) :
    ∃ missing, items.length + missing = names.length ∧
      List.Forall₂ (fun name value => Option.Rel (spells name) (final.lookup name) value) names
        (items.map some ++ List.replicate missing none) := by
  induction fills with
  | @done names fields =>
      refine ⟨names.length, Nat.zero_add _, ?_⟩
      clear nodup
      induction names with
      | nil => exact .nil
      | cons name names ih =>
          obtain ⟨first, later⟩ := List.forall_mem_cons.1 fresh
          refine .cons ?_ (ih later)
          rw [first]
          exact .none
  | @next name names v item items fields final value fills ih =>
      obtain ⟨not_mem, nodup⟩ := List.nodup_cons.1 nodup
      obtain ⟨-, fresh⟩ := List.forall_mem_cons.1 fresh
      obtain ⟨missing, count, all⟩ := ih nodup (fresh_cons not_mem v fresh)
      refine ⟨missing, ?_, .cons ?_ all⟩
      · rw [List.length_cons, List.length_cons, ← count]
        omega
      · rw [fills.lookup_eq not_mem, List.lookup_cons_self]
        exact .some value

theorem lookup_eq_none_of_missing {wanted : List (String × ν)} {names : List String}
    {missing : Nat}
    (all : List.Forall₂ (fun name value => Option.Rel (spells name) (wanted.lookup name) value)
      names (List.replicate missing none)) : ∀ name ∈ names, wanted.lookup name = none := by
  induction names generalizing missing with
  | nil => exact List.forall_mem_nil _
  | cons name names ih =>
      cases missing with
      | zero => cases all
      | succ missing =>
          obtain ⟨first, later⟩ := List.forall₂_cons.1 all
          generalize found : wanted.lookup name = value at first
          cases first
          exact List.forall_mem_cons.2 ⟨found, ih later⟩

theorem fills_of_rel {names : List String} {items : List (List UInt8)} {missing : Nat}
    {fields wanted : List (String × ν)} (nodup : names.Nodup)
    (fresh : ∀ name ∈ names, fields.lookup name = none)
    (all : List.Forall₂ (fun name value => Option.Rel (spells name) (wanted.lookup name) value)
      names (items.map some ++ List.replicate missing none)) :
    ∃ final, Fills spells names items fields final ∧
      ∀ name ∈ names, final.lookup name = wanted.lookup name := by
  induction items generalizing names fields with
  | nil =>
      refine ⟨fields, .done, fun name mem => ?_⟩
      rw [fresh name mem, lookup_eq_none_of_missing all name mem]
  | cons item items ih =>
      cases names with
      | nil => cases all
      | cons name names =>
          obtain ⟨first, later⟩ := List.forall₂_cons.1 all
          obtain ⟨not_mem, nodup⟩ := List.nodup_cons.1 nodup
          generalize found : wanted.lookup name = value at first
          cases first with
          | @some v _ spelled =>
              have still := fresh_cons not_mem v (List.forall_mem_cons.1 fresh).2
              obtain ⟨final, fills, agree⟩ := ih nodup still later
              refine ⟨final, .next spelled fills, List.forall_mem_cons.2 ⟨?_, agree⟩⟩
              rw [fills.lookup_eq not_mem, List.lookup_cons_self, found]

end Positional

/-! ## Reading them -/

section Records

variable {shape : Shape ν α} {keys : String → List String} {spells : String → ν → List UInt8 → Prop}

/-- The fields that are read of a text, in the form that its first byte announces. -/
theorem fieldsIn_append (spelled : shape.Spelled keys spells) {values : List (Option (List UInt8))}
    {wanted : List (String × ν)} {text : List UInt8}
    (isRecord : IsRecord (shape.names.map keys) values text)
    (all : List.Forall₂ (fun field value => Option.Rel (spells field) (wanted.lookup field) value)
      shape.names values) :
    ∃ b inner final, text = b :: inner ∧ isBracket b = true ∧
      (∀ rest, shape.fieldsIn b (inner ++ rest) = .ok (final, rest)) ∧
      ∀ field ∈ shape.names, final.lookup field = wanted.lookup field := by
  cases isRecord with
  | @object members _ isObject json under =>
      cases isObject with
      | @brackets pieces inner enclosed keyed =>
          have pending : ∀ field ∈ shape.names, Pending (spells field) (wanted.lookup field)
              (([] : List (String × ν)).lookup field) (valuesUnder (keys field) members) := by
            intro field isField
            have each := all.mp (fun field value => pending_of_rel)
              (List.forall₂_map_left_iff.1 under)
            obtain ⟨_, -, pending⟩ := exists_of_forall₂ (List.Forall₂.flip each) isField
            exact pending
          obtain ⟨final, chain, agree⟩ := chain_of_pending spelled json pending
          refine ⟨ascii '{', inner, final, rfl, by decide, fun rest => ?_, agree⟩
          have chain := chain_comp_iff.2 ⟨members, chain, keyed⟩
          rw [fieldsIn, if_neg (by decide)]
          exact items_of_chain (fieldReader_reads spelled) chain enclosed rest
  | @array items missing _ isArray count eq =>
      cases isArray with
      | @brackets inner enclosed =>
          subst eq
          have fresh : ∀ name ∈ shape.names, ([] : List (String × ν)).lookup name = none :=
            fun _ _ => rfl
          obtain ⟨final, fills, agree⟩ := fills_of_rel spelled.nodup fresh all
          refine ⟨ascii '[', inner, final, rfl, by decide, fun rest => ?_, agree⟩
          rw [fieldsIn, if_pos rfl]
          exact positional_append fills spelled.reads enclosed rest

theorem isRecord_of_fieldsIn (spelled : shape.Spelled keys spells) {b : UInt8}
    (bracket : isBracket b = true) {tail rest : List UInt8} {fields : List (String × ν)}
    (h : shape.fieldsIn b tail = .ok (fields, rest)) :
    ∃ values inner, IsRecord (shape.names.map keys) values (b :: inner) ∧
      List.Forall₂ (fun field value => Option.Rel (spells field) (fields.lookup field) value)
        shape.names values ∧
      tail = inner ++ rest := by
  unfold fieldsIn at h
  split at h
  next array =>
    subst array
    obtain ⟨items, inner, enclosed, fills, rfl⟩ := fills_of_positional spelled.reads h
    obtain ⟨missing, count, all⟩ := fills.rel spelled.nodup fun _ _ => rfl
    refine ⟨_, inner, .array (.brackets enclosed) ?_ rfl, all, rfl⟩
    rw [List.length_map]
    exact count
  next no_array =>
    have object : b = ascii '{' := by
      simpa [isBracket, no_array] using bracket
    subst object
    have h : items Bracket.object.close shape.fieldReader false [] tail = .ok (fields, rest) := h
    obtain ⟨pieces, inner, enclosed, chain, rfl⟩ := chain_of_items (fieldReader_reads spelled) h
    obtain ⟨members, chain, keyed⟩ := chain_comp_iff.1 chain
    have none_read (field : String) : Option.Rel (spells field)
        (([] : List (String × ν)).lookup field) none := .none
    obtain ⟨values, all⟩ := exists_forall₂ fun field isField =>
      rel_of_chain spelled chain isField (none_read field)
    refine ⟨values, inner, .object (.brackets enclosed keyed) (isJson_of_chain spelled chain) ?_,
      all.imp fun _ _ both => both.1, rfl⟩
    rw [List.forall₂_map_left_iff]
    exact all.imp fun _ _ both => both.2.symm

theorem reads (spelled : shape.Spelled keys spells) :
    shape.reader.Reads (shape.Presents keys spells) where
  opens := fun ⟨_, _, _, _, isRecord⟩ => isRecord.opens
  complete := by
    rintro record blanks text rest before ⟨wanted, values, built, all, isRecord⟩ -
    obtain ⟨b, inner, final, rfl, bracket, read, agree⟩ := fieldsIn_append spelled isRecord all
    have solid : isBlank b = false := by
      simp only [isBracket, Bool.or_eq_true, decide_eq_true_eq] at bracket
      rcases bracket with rfl | rfl <;> decide
    show readTyped (fun _ => none) (fun b => if isBracket b then some (shape.body b) else none)
      (blanks ++ b :: (inner ++ rest)) = _
    rw [readTyped_opened _ (if_pos bracket) solid before, body, read rest]
    simp only [spelled.build_congr agree, built]
  sound := by
    intro record bytes rest h
    have h : readTyped (fun _ => none) (fun b => if isBracket b then some (shape.body b) else none)
      bytes = .ok (record, rest) := h
    obtain ⟨blanks, before, ⟨b, tail, read, opened, found, eq⟩ | ⟨_, _, accepts, -⟩⟩ :=
      readTyped_eq_ok h
    · split at opened <;> cases opened
      next bracket =>
        unfold body at found
        split at found
        next => cases found
        next fields rest' inside =>
          split at found <;> cases found
          next built =>
            obtain ⟨values, inner, isRecord, all, rfl⟩ :=
              isRecord_of_fieldsIn spelled bracket inside
            exact ⟨blanks, b :: inner, before, ⟨fields, values, built, all, isRecord⟩, eq⟩
    · cases accepts

end Records

end Shape

end NodeInventory.Json
