import OddsfoxExecution.Api.Mutations
import Mathlib.Data.List.Nodup
import Mathlib.Data.List.Sort
import Mathlib.Data.String.Basic

/-!
# Bodies without duplicate fields

`StrictJson` and `UniqueJson` of `src/api.rs` beside the ordinary reading of a
body as a `serde_json::Value`.  A document is what the parser walks over: it
hands every construct to the visitor that reads it.  What a string or a number
literal stands for is the parser's affair, so two keys are the same field when
they read as the same text, however they are escaped.
-/

namespace OddsfoxExecution

/-- A JSON document over its literals. -/
inductive JsonDocument (S N : Type) where
  | null
  | bool (value : Bool)
  | number (literal : N)
  | string (literal : S)
  | array (items : List (JsonDocument S N))
  | object (fields : List (S × JsonDocument S N))

inductive JsonNumber (F : Type) where
  | posInt (value : UInt64)
  | negInt (value : Int64)
  | float (value : F)
deriving DecidableEq

/-- `serde_json::Value`; a map lists its fields in the order of the keys. -/
inductive JsonValue (F : Type) where
  | null
  | bool (value : Bool)
  | number (value : JsonNumber F)
  | string (value : String)
  | array (values : List (JsonValue F))
  | object (fields : List (String × JsonValue F))

inductive JsonError where
  | recursionLimitExceeded
  | literal (message : String)
  | custom (message : String)
deriving DecidableEq

/-- The number a visitor is handed. -/
inductive ParsedNumber (F : Type) where
  | u64 (value : UInt64)
  | i64 (value : Int64)
  | f64 (value : F)

/-- How the parser reads literals, which floats are finite, and how errors are displayed. -/
structure JsonParser (S N F : Type) where
  string : S → Except JsonError String
  number : N → Except JsonError (ParsedNumber F)
  finite : F → Bool
  display : JsonError → String

def mapInsert {V : Type} (key : String) (value : V) : List (String × V) → List (String × V)
  | [] => [(key, value)]
  | field :: rest =>
    if key < field.1 then (key, value) :: field :: rest
    else if key = field.1 then (key, value) :: rest
    else field :: mapInsert key value rest

/-- `check_recursion!`: arrays and objects nest no deeper than the limit. -/
def checkRecursion {α : Type} (remainingDepth : Nat) (visit : Nat → Except JsonError α) :
    Except JsonError α :=
  if remainingDepth - 1 = 0 then .error .recursionLimitExceeded else visit (remainingDepth - 1)

section Visitors

variable {S N F : Type} (parser : JsonParser S N F)

def JsonNumber.ofI64 (value : Int64) : JsonNumber F :=
  if value < 0 then .negInt value else .posInt value.toUInt64

def JsonNumber.fromF64 (value : F) : Option (JsonNumber F) :=
  if parser.finite value then some (.float value) else none

/-! ## The visitor of the API -/

namespace UniqueJson

def visitF64 (value : F) : Except JsonError (JsonValue F) :=
  match JsonNumber.fromF64 parser value with
  | some number => .ok (.number number)
  | none => .error (.custom "JSON number is not finite")

def visitNumber : ParsedNumber F → Except JsonError (JsonValue F)
  | .u64 value => .ok (.number (.posInt value))
  | .i64 value => .ok (.number (.ofI64 value))
  | .f64 value => visitF64 parser value

mutual

/-- `deserialize_any` with a `UniqueJsonVisitor`. -/
def deserialize (remainingDepth : Nat) : JsonDocument S N → Except JsonError (JsonValue F)
  | .null => .ok .null
  | .bool value => .ok (.bool value)
  | .number literal => do visitNumber parser (← parser.number literal)
  | .string literal => do pure (.string (← parser.string literal))
  | .array items => checkRecursion remainingDepth fun depth => visitSeq depth items []
  | .object fields => checkRecursion remainingDepth fun depth => visitMap depth fields [] []

def visitSeq (depth : Nat) : List (JsonDocument S N) → List (JsonValue F) →
    Except JsonError (JsonValue F)
  | [], values => .ok (.array values)
  | item :: rest, values => do
    let value ← deserialize depth item
    visitSeq depth rest (values ++ [value])

def visitMap (depth : Nat) : List (S × JsonDocument S N) → List String →
    List (String × JsonValue F) → Except JsonError (JsonValue F)
  | [], _, values => .ok (.object values)
  | (literal, item) :: rest, keys, values => do
    let key ← parser.string literal
    if key ∈ keys then throw (.custom ("duplicate JSON field `" ++ key ++ "`"))
    let value ← deserialize depth item
    visitMap depth rest (key :: keys) (mapInsert key value values)

end

end UniqueJson

/-! ## The visitor of `serde_json::Value` -/

namespace ValueVisitor

def visitNumber : ParsedNumber F → Except JsonError (JsonValue F)
  | .u64 value => .ok (.number (.posInt value))
  | .i64 value => .ok (.number (.ofI64 value))
  | .f64 value => .ok (((JsonNumber.fromF64 parser value).map .number).getD .null)

mutual

def deserialize (remainingDepth : Nat) : JsonDocument S N → Except JsonError (JsonValue F)
  | .null => .ok .null
  | .bool value => .ok (.bool value)
  | .number literal => do visitNumber parser (← parser.number literal)
  | .string literal => do pure (.string (← parser.string literal))
  | .array items => checkRecursion remainingDepth fun depth => visitSeq depth items []
  | .object fields => checkRecursion remainingDepth fun depth => visitMap depth fields []

def visitSeq (depth : Nat) : List (JsonDocument S N) → List (JsonValue F) →
    Except JsonError (JsonValue F)
  | [], values => .ok (.array values)
  | item :: rest, values => do
    let value ← deserialize depth item
    visitSeq depth rest (values ++ [value])

/-- The last of several values of a key stays. -/
def visitMap (depth : Nat) : List (S × JsonDocument S N) → List (String × JsonValue F) →
    Except JsonError (JsonValue F)
  | [], values => .ok (.object values)
  | (literal, item) :: rest, values => do
    let key ← parser.string literal
    let value ← deserialize depth item
    visitMap depth rest (mapInsert key value values)

end

end ValueVisitor

/-- What `serde_json` lets arrays and objects nest. -/
def recursionLimit : Nat := 128

/-- `StrictJson::from_request`; `grammar` reads the bytes as one document. -/
def StrictJson.fromRequest {T : Type} (grammar : ByteArray → Except JsonError (JsonDocument S N))
    (fromValue : JsonValue F → Except JsonError T) (body : Except Nat ByteArray) :
    Except ApiError T :=
  match body with
  | .error status =>
    .error ⟨status, if status = 413 then "REQUEST_BODY_TOO_LARGE" else "REQUEST_BODY_INVALID",
      "request body could not be read", false, none⟩
  | .ok bytes =>
    match grammar bytes >>= UniqueJson.deserialize parser recursionLimit with
    | .error e => .error ⟨400, "REQUEST_JSON_INVALID", parser.display e, false, none⟩
    | .ok unique =>
      match fromValue unique with
      | .error e => .error ⟨422, "REQUEST_SCHEMA_INVALID", parser.display e, false, none⟩
      | .ok request => .ok request

end Visitors

/-! ## Documents without duplicates -/

section DuplicateFree

variable {S N F : Type} (parser : JsonParser S N F)

namespace JsonDocument

mutual

/-- No object, however deep, has one key twice. -/
def DuplicateFree : JsonDocument S N → Prop
  | .null | .bool _ | .number _ | .string _ => True
  | .array items => ItemsFree items
  | .object fields => (fields.map fun field => parser.string field.1).Nodup ∧ FieldsFree fields

def ItemsFree : List (JsonDocument S N) → Prop
  | [] => True
  | item :: rest => item.DuplicateFree ∧ ItemsFree rest

def FieldsFree : List (S × JsonDocument S N) → Prop
  | [] => True
  | (_, item) :: rest => item.DuplicateFree ∧ FieldsFree rest

end

end JsonDocument

variable {parser}

/-- A computation that may fail succeeds when both of its halves do. -/
theorem bind_eq_ok {ε α β : Type} {x : Except ε α} {f : α → Except ε β} {b : β} :
    x >>= f = .ok b ↔ ∃ a, x = .ok a ∧ f a = .ok b := by
  cases x with
  | error e =>
    constructor
    · intro h
      cases h
    · rintro ⟨a, h, -⟩
      cases h
  | ok a =>
    constructor
    · intro h
      exact ⟨a, rfl, h⟩
    · rintro ⟨a', h, hb⟩
      cases h
      exact hb

theorem checkRecursion_eq_ok {α : Type} {remainingDepth : Nat} {visit : Nat → Except JsonError α}
    {a : α} : checkRecursion remainingDepth visit = .ok a ↔
      remainingDepth - 1 ≠ 0 ∧ visit (remainingDepth - 1) = .ok a := by
  unfold checkRecursion
  by_cases hzero : remainingDepth - 1 = 0
  · rw [if_pos hzero]
    constructor
    · intro h
      cases h
    · intro h
      exact absurd hzero h.1
  · rw [if_neg hzero]
    exact ⟨fun h => ⟨hzero, h⟩, fun h => h.2⟩

/-- The parser hands out finite floats only. -/
def FiniteNumbers (parser : JsonParser S N F) : Prop :=
  ∀ literal value, parser.number literal = .ok (.f64 value) → parser.finite value = true

/-- On what the parser hands out the two visitors read a number alike. -/
theorem visitNumber_eq (hfinite : FiniteNumbers parser) {literal : N} {number : ParsedNumber F}
    (h : parser.number literal = .ok number) :
    UniqueJson.visitNumber parser number = ValueVisitor.visitNumber parser number := by
  cases number with
  | u64 value => rfl
  | i64 value => rfl
  | f64 value =>
    simp [UniqueJson.visitNumber, UniqueJson.visitF64, ValueVisitor.visitNumber,
      JsonNumber.fromF64, hfinite literal value h]

mutual

/-- `UniqueJson` reads a document when it has no duplicates, and then as the ordinary reading
does. -/
theorem UniqueJson.deserialize_iff (hfinite : FiniteNumbers parser) (depth : Nat)
    (value : JsonValue F) : ∀ document : JsonDocument S N,
      UniqueJson.deserialize parser depth document = .ok value ↔
        document.DuplicateFree parser ∧ ValueVisitor.deserialize parser depth document = .ok value
  | .null => by simp [deserialize, ValueVisitor.deserialize, JsonDocument.DuplicateFree]
  | .bool _ => by simp [deserialize, ValueVisitor.deserialize, JsonDocument.DuplicateFree]
  | .string _ => by simp [deserialize, ValueVisitor.deserialize, JsonDocument.DuplicateFree]
  | .number literal => by
    simp only [deserialize, ValueVisitor.deserialize, JsonDocument.DuplicateFree, true_and,
      bind_eq_ok]
    constructor
    · rintro ⟨number, hnumber, h⟩
      exact ⟨number, hnumber, by rwa [← visitNumber_eq hfinite hnumber]⟩
    · rintro ⟨number, hnumber, h⟩
      exact ⟨number, hnumber, by rwa [visitNumber_eq hfinite hnumber]⟩
  | .array items => by
    simp only [deserialize, ValueVisitor.deserialize, JsonDocument.DuplicateFree,
      checkRecursion_eq_ok, visitSeq_iff hfinite (depth - 1) items [] value]
    tauto
  | .object fields => by
    simp only [deserialize, ValueVisitor.deserialize, JsonDocument.DuplicateFree,
      checkRecursion_eq_ok, visitMap_iff hfinite (depth - 1) fields [] [] value]
    simp only [List.not_mem_nil, false_implies, implies_true, and_true]
    tauto

theorem UniqueJson.visitSeq_iff (hfinite : FiniteNumbers parser) (depth : Nat) :
    ∀ (items : List (JsonDocument S N)) (values : List (JsonValue F)) (value : JsonValue F),
      UniqueJson.visitSeq parser depth items values = .ok value ↔
        JsonDocument.ItemsFree parser items ∧
          ValueVisitor.visitSeq parser depth items values = .ok value
  | [], values, value => by simp [visitSeq, ValueVisitor.visitSeq, JsonDocument.ItemsFree]
  | item :: rest, values, value => by
    simp only [visitSeq, ValueVisitor.visitSeq, JsonDocument.ItemsFree, bind_eq_ok,
      deserialize_iff hfinite depth _ item, visitSeq_iff hfinite depth rest]
    constructor
    · rintro ⟨a, ⟨hitem, ha⟩, hrest, h⟩
      exact ⟨⟨hitem, hrest⟩, a, ha, h⟩
    · rintro ⟨⟨hitem, hrest⟩, a, ha, h⟩
      exact ⟨a, ⟨hitem, ha⟩, hrest, h⟩

theorem UniqueJson.visitMap_iff (hfinite : FiniteNumbers parser) (depth : Nat) :
    ∀ (fields : List (S × JsonDocument S N)) (keys : List String)
      (values : List (String × JsonValue F)) (value : JsonValue F),
      UniqueJson.visitMap parser depth fields keys values = .ok value ↔
        (((fields.map fun field => parser.string field.1).Nodup ∧
          JsonDocument.FieldsFree parser fields) ∧
          ∀ key ∈ keys, ∀ field ∈ fields, parser.string field.1 ≠ .ok key) ∧
        ValueVisitor.visitMap parser depth fields values = .ok value
  | [], keys, values, value => by
    simp [visitMap, ValueVisitor.visitMap, JsonDocument.FieldsFree]
  | (literal, item) :: rest, keys, values, value => by
    simp only [visitMap, ValueVisitor.visitMap, JsonDocument.FieldsFree, bind_eq_ok,
      List.map_cons, List.nodup_cons]
    constructor
    · rintro ⟨key, hkey, h⟩
      by_cases hseen : key ∈ keys
      · rw [if_pos hseen] at h
        obtain ⟨_, hthrow, -⟩ := bind_eq_ok.mp h
        cases hthrow
      · rw [if_neg hseen] at h
        obtain ⟨a, ha, h⟩ := bind_eq_ok.mp h
        obtain ⟨hfree, ha⟩ := (deserialize_iff hfinite depth a item).mp ha
        obtain ⟨⟨⟨hnodup, hrest⟩, hfresh⟩, h⟩ := (visitMap_iff hfinite depth rest _ _ _).mp h
        refine ⟨⟨⟨⟨?_, hnodup⟩, hfree, hrest⟩, ?_⟩, key, hkey, a, ha, h⟩
        · rw [hkey, List.mem_map]
          rintro ⟨field, hfield, heq⟩
          exact hfresh key List.mem_cons_self field hfield heq
        · intro seen hmem field hfield heq
          rcases List.mem_cons.mp hfield with rfl | hfield
          · obtain rfl := Except.ok.inj (hkey.symm.trans heq)
            exact hseen hmem
          · exact hfresh seen (List.mem_cons_of_mem _ hmem) field hfield heq
    · rintro ⟨⟨⟨⟨hfirst, hnodup⟩, hfree, hrest⟩, hfresh⟩, key, hkey, a, ha, h⟩
      have hseen : key ∉ keys := fun hmem => hfresh key hmem _ List.mem_cons_self hkey
      refine ⟨key, hkey, ?_⟩
      rw [if_neg hseen]
      refine bind_eq_ok.mpr ⟨a, (deserialize_iff hfinite depth a item).mpr ⟨hfree, ha⟩, ?_⟩
      refine (visitMap_iff hfinite depth rest _ _ _).mpr ⟨⟨⟨hnodup, hrest⟩, ?_⟩, h⟩
      intro seen hmem field hfield heq
      rcases List.mem_cons.mp hmem with rfl | hmem
      · exact hfirst (List.mem_map.mpr ⟨field, hfield, heq.trans hkey.symm⟩)
      · exact hfresh seen hmem field (List.mem_cons_of_mem _ hfield) heq

end

end DuplicateFree

/-! ## The limits of the parser -/

section Limits

variable {S N F : Type}

namespace JsonDocument

mutual

def depth : JsonDocument S N → Nat
  | .null | .bool _ | .number _ | .string _ => 0
  | .array items => itemsDepth items + 1
  | .object fields => fieldsDepth fields + 1

def itemsDepth : List (JsonDocument S N) → Nat
  | [] => 0
  | item :: rest => max item.depth (itemsDepth rest)

def fieldsDepth : List (S × JsonDocument S N) → Nat
  | [] => 0
  | (_, item) :: rest => max item.depth (fieldsDepth rest)

end

variable (parser : JsonParser S N F)

mutual

def LiteralsRead : JsonDocument S N → Prop
  | .null | .bool _ => True
  | .number literal => ∃ number, parser.number literal = .ok number
  | .string literal => ∃ text, parser.string literal = .ok text
  | .array items => ItemsRead items
  | .object fields => FieldsRead fields

def ItemsRead : List (JsonDocument S N) → Prop
  | [] => True
  | item :: rest => item.LiteralsRead ∧ ItemsRead rest

def FieldsRead : List (S × JsonDocument S N) → Prop
  | [] => True
  | (literal, item) :: rest =>
    (∃ key, parser.string literal = .ok key) ∧ item.LiteralsRead ∧ FieldsRead rest

end

end JsonDocument

variable {parser : JsonParser S N F}

theorem ValueVisitor.visitNumber_ok (number : ParsedNumber F) :
    ∃ value, ValueVisitor.visitNumber parser number = .ok value := by
  cases number <;> exact ⟨_, rfl⟩

mutual

theorem ValueVisitor.deserialize_ok (remainingDepth : Nat) : ∀ document : JsonDocument S N,
    document.depth < remainingDepth → document.LiteralsRead parser →
      ∃ value, ValueVisitor.deserialize parser remainingDepth document = .ok value
  | .null, _, _ => ⟨_, rfl⟩
  | .bool _, _, _ => ⟨_, rfl⟩
  | .number literal, _, hread => by
    obtain ⟨number, hnumber⟩ := hread
    obtain ⟨value, hvalue⟩ : ∃ value, visitNumber parser number = .ok value :=
      visitNumber_ok number
    exact ⟨value, bind_eq_ok.mpr ⟨number, hnumber, hvalue⟩⟩
  | .string literal, _, hread => by
    obtain ⟨text, htext⟩ := hread
    exact ⟨.string text, bind_eq_ok.mpr ⟨text, htext, rfl⟩⟩
  | .array items, hdepth, hread => by
    rw [JsonDocument.depth] at hdepth
    obtain ⟨value, hvalue⟩ := visitSeq_ok (remainingDepth - 1) items [] (by omega) hread
    refine ⟨value, ?_⟩
    rw [deserialize, checkRecursion_eq_ok]
    exact ⟨by omega, hvalue⟩
  | .object fields, hdepth, hread => by
    rw [JsonDocument.depth] at hdepth
    obtain ⟨value, hvalue⟩ := visitMap_ok (remainingDepth - 1) fields [] (by omega) hread
    refine ⟨value, ?_⟩
    rw [deserialize, checkRecursion_eq_ok]
    exact ⟨by omega, hvalue⟩

theorem ValueVisitor.visitSeq_ok (depth : Nat) : ∀ (items : List (JsonDocument S N))
    (values : List (JsonValue F)), JsonDocument.itemsDepth items < depth →
      JsonDocument.ItemsRead parser items →
        ∃ value, ValueVisitor.visitSeq parser depth items values = .ok value
  | [], values, _, _ => ⟨_, rfl⟩
  | item :: rest, values, hdepth, hread => by
    rw [JsonDocument.itemsDepth, max_lt_iff] at hdepth
    obtain ⟨a, ha⟩ := deserialize_ok depth item hdepth.1 hread.1
    obtain ⟨value, hvalue⟩ := visitSeq_ok depth rest (values ++ [a]) hdepth.2 hread.2
    exact ⟨value, bind_eq_ok.mpr ⟨a, ha, hvalue⟩⟩

theorem ValueVisitor.visitMap_ok (depth : Nat) : ∀ (fields : List (S × JsonDocument S N))
    (values : List (String × JsonValue F)), JsonDocument.fieldsDepth fields < depth →
      JsonDocument.FieldsRead parser fields →
        ∃ value, ValueVisitor.visitMap parser depth fields values = .ok value
  | [], values, _, _ => ⟨_, rfl⟩
  | (literal, item) :: rest, values, hdepth, hread => by
    rw [JsonDocument.fieldsDepth, max_lt_iff] at hdepth
    obtain ⟨⟨key, hkey⟩, hitem, hrest⟩ := hread
    obtain ⟨a, ha⟩ := deserialize_ok depth item hdepth.1 hitem
    obtain ⟨value, hvalue⟩ := visitMap_ok depth rest (mapInsert key a values) hdepth.2 hrest
    exact ⟨value, bind_eq_ok.mpr ⟨key, hkey, bind_eq_ok.mpr ⟨a, ha, hvalue⟩⟩⟩

end

end Limits

/-! ## The readings of a document -/

section MapInsert

variable {V : Type}

/-- The fields of a map in the order of their keys. -/
def SortedFields (fields : List (String × V)) : Prop :=
  fields.Pairwise fun a b => a.1 < b.1

theorem mem_mapInsert {key : String} {value : V} {field : String × V} :
    ∀ {fields : List (String × V)}, field ∈ mapInsert key value fields →
      field = (key, value) ∨ field ∈ fields
  | [], h => Or.inl (List.mem_singleton.mp h)
  | first :: rest, h => by
    unfold mapInsert at h
    split at h
    · exact List.mem_cons.mp h
    · split at h
      · exact (List.mem_cons.mp h).imp id (List.mem_cons_of_mem _)
      · rcases List.mem_cons.mp h with rfl | h
        · exact Or.inr List.mem_cons_self
        · exact (mem_mapInsert h).imp id (List.mem_cons_of_mem _)

theorem keys_mapInsert {key other : String} {value : V} :
    ∀ {fields : List (String × V)}, other ∈ (mapInsert key value fields).map Prod.fst ↔
      other = key ∨ other ∈ fields.map Prod.fst
  | [] => by simp [mapInsert]
  | first :: rest => by
    unfold mapInsert
    split
    · simp
    · split
      · rename_i heq
        simp [heq]
      · rw [List.map_cons, List.mem_cons, keys_mapInsert, List.map_cons, List.mem_cons]
        tauto

theorem SortedFields.mapInsert {key : String} {value : V} :
    ∀ {fields : List (String × V)}, SortedFields fields → SortedFields (mapInsert key value fields)
  | [], _ => List.pairwise_singleton _ _
  | first :: rest, h => by
    obtain ⟨hfirst, hrest⟩ := List.pairwise_cons.mp h
    unfold OddsfoxExecution.mapInsert
    by_cases hbefore : key < first.1
    · rw [if_pos hbefore]
      refine List.pairwise_cons.mpr ⟨fun field hfield => ?_, h⟩
      rcases List.mem_cons.mp hfield with rfl | hfield
      · exact hbefore
      · exact hbefore.trans (hfirst field hfield)
    · rw [if_neg hbefore]
      by_cases hsame : key = first.1
      · rw [if_pos hsame]
        refine List.pairwise_cons.mpr ⟨fun field hfield => ?_, hrest⟩
        change key < field.1
        rw [hsame]
        exact hfirst field hfield
      · rw [if_neg hsame]
        refine List.pairwise_cons.mpr ⟨fun field hfield => ?_, SortedFields.mapInsert hrest⟩
        rcases mem_mapInsert hfield with rfl | hfield
        · exact lt_of_le_of_ne (not_lt.mp hbefore) (Ne.symm hsame)
        · exact hfirst field hfield

theorem SortedFields.ext {fields fields' : List (String × V)} (h : SortedFields fields)
    (h' : SortedFields fields') (hsame : ∀ field, field ∈ fields ↔ field ∈ fields') :
    fields = fields' := by
  have hne : ∀ {l : List (String × V)}, SortedFields l → l.Nodup := fun hl =>
    hl.imp fun hlt heq => absurd (congrArg Prod.fst heq) hlt.ne
  have hperm := (List.perm_ext_iff_of_nodup (hne h) (hne h')).mpr hsame
  apply hperm.eq_of_pairwise _ h h'
  intro a b _ _ hab hba
  exact absurd hba hab.asymm

end MapInsert

section Readings

variable {S N F : Type} (parser : JsonParser S N F)

namespace JsonDocument

mutual

/-- A reading of a document: what a key is given twice is settled for one of its values, in
whatever way. -/
def ReadsAs : JsonDocument S N → JsonValue F → Prop
  | .null, value => value = .null
  | .bool flag, value => value = .bool flag
  | .number literal, value =>
    ∃ number, parser.number literal = .ok number ∧
      ValueVisitor.visitNumber parser number = .ok value
  | .string literal, value => ∃ text, parser.string literal = .ok text ∧ value = .string text
  | .array items, value => ∃ values, value = .array values ∧ ItemsReadAs items values
  | .object fields, value =>
    ∃ values, value = .object values ∧ SortedFields values ∧
      (∀ field ∈ values, OneReadsAs fields field.1 field.2) ∧
      ∀ field ∈ fields, ∃ key, parser.string field.1 = .ok key ∧ key ∈ values.map Prod.fst

def ItemsReadAs : List (JsonDocument S N) → List (JsonValue F) → Prop
  | [], values => values = []
  | item :: rest, values =>
    ∃ first others, values = first :: others ∧ item.ReadsAs first ∧ ItemsReadAs rest others

def OneReadsAs : List (S × JsonDocument S N) → String → JsonValue F → Prop
  | [], _, _ => False
  | (literal, item) :: rest, key, value =>
    (parser.string literal = .ok key ∧ item.ReadsAs value) ∨ OneReadsAs rest key value

end

variable {parser}

theorem OneReadsAs.exists_field : ∀ {fields : List (S × JsonDocument S N)} {key : String}
    {value : JsonValue F}, OneReadsAs parser fields key value →
      ∃ field ∈ fields, parser.string field.1 = .ok key
  | (literal, item) :: rest, key, value, h => by
    rcases h with ⟨hkey, -⟩ | h
    · exact ⟨_, List.mem_cons_self, hkey⟩
    · obtain ⟨field, hfield, hkey⟩ := h.exists_field
      exact ⟨field, List.mem_cons_of_mem _ hfield, hkey⟩

mutual

theorem ReadsAs.unique : ∀ {document : JsonDocument S N} {value value' : JsonValue F},
    document.DuplicateFree parser → document.ReadsAs parser value →
      document.ReadsAs parser value' → value = value'
  | .null, value, value', _, h, h' => h.trans h'.symm
  | .bool _, value, value', _, h, h' => h.trans h'.symm
  | .number literal, value, value', _, h, h' => by
    obtain ⟨number, hnumber, hvalue⟩ := h
    obtain ⟨number', hnumber', hvalue'⟩ := h'
    obtain rfl := Except.ok.inj (hnumber.symm.trans hnumber')
    exact Except.ok.inj (hvalue.symm.trans hvalue')
  | .string literal, value, value', _, h, h' => by
    obtain ⟨text, htext, rfl⟩ := h
    obtain ⟨text', htext', rfl⟩ := h'
    obtain rfl := Except.ok.inj (htext.symm.trans htext')
    rfl
  | .array items, value, value', hfree, h, h' => by
    obtain ⟨values, rfl, hvalues⟩ := h
    obtain ⟨values', rfl, hvalues'⟩ := h'
    rw [ItemsReadAs.unique hfree hvalues hvalues']
  | .object fields, value, value', hfree, h, h' => by
    obtain ⟨values, rfl, hsorted, hgiven, hall⟩ := h
    obtain ⟨values', rfl, hsorted', hgiven', hall'⟩ := h'
    have hsub : ∀ {l l' : List (String × JsonValue F)},
        (∀ field ∈ l, OneReadsAs parser fields field.1 field.2) →
        (∀ field ∈ l', OneReadsAs parser fields field.1 field.2) →
        (∀ field ∈ fields, ∃ key, parser.string field.1 = .ok key ∧ key ∈ l'.map Prod.fst) →
        ∀ field ∈ l, field ∈ l' := by
      intro l l' hl hl' hkeys field hfield
      have hone := hl field hfield
      obtain ⟨given, hgiven, hkey⟩ := hone.exists_field
      obtain ⟨key, hkey', hmem⟩ := hkeys given hgiven
      obtain rfl := Except.ok.inj (hkey.symm.trans hkey')
      obtain ⟨other, hother, hsame⟩ := List.mem_map.mp hmem
      have hother' := hl' other hother
      rw [hsame] at hother'
      have hvalue := OneReadsAs.unique hfree.1 hfree.2 hone hother'
      rwa [← Prod.ext hsame hvalue.symm]
    congr 1
    apply hsorted.ext hsorted'
    intro field
    exact ⟨hsub hgiven hgiven' hall' field, hsub hgiven' hgiven hall field⟩

theorem ItemsReadAs.unique : ∀ {items : List (JsonDocument S N)}
    {values values' : List (JsonValue F)}, ItemsFree parser items →
      ItemsReadAs parser items values → ItemsReadAs parser items values' → values = values'
  | [], values, values', _, h, h' => h.trans h'.symm
  | item :: rest, values, values', hfree, h, h' => by
    obtain ⟨first, others, rfl, hfirst, hothers⟩ := h
    obtain ⟨first', others', rfl, hfirst', hothers'⟩ := h'
    rw [ReadsAs.unique hfree.1 hfirst hfirst', ItemsReadAs.unique hfree.2 hothers hothers']

theorem OneReadsAs.unique : ∀ {fields : List (S × JsonDocument S N)} {key : String}
    {value value' : JsonValue F}, (fields.map fun field => parser.string field.1).Nodup →
      FieldsFree parser fields → OneReadsAs parser fields key value →
        OneReadsAs parser fields key value' → value = value'
  | (literal, item) :: rest, key, value, value', hnodup, hfree, h, h' => by
    obtain ⟨hfirst, hnodup⟩ := List.nodup_cons.mp hnodup
    have hnot : ∀ {value : JsonValue F}, parser.string literal = .ok key →
        ¬ OneReadsAs parser rest key value := by
      intro value hkey hrest
      obtain ⟨field, hfield, hkey'⟩ := hrest.exists_field
      exact hfirst (List.mem_map.mpr ⟨field, hfield, hkey'.trans hkey.symm⟩)
    rcases h with ⟨hkey, h⟩ | h
    · rcases h' with ⟨-, h'⟩ | h'
      · exact ReadsAs.unique hfree.1 h h'
      · exact absurd h' (hnot hkey)
    · rcases h' with ⟨hkey, h'⟩ | h'
      · exact absurd h (hnot hkey)
      · exact OneReadsAs.unique hnodup hfree.2 h h'

end

end JsonDocument

variable {parser}

mutual

theorem ValueVisitor.deserialize_reads {depth : Nat} : ∀ {document : JsonDocument S N}
    {value : JsonValue F}, ValueVisitor.deserialize parser depth document = .ok value →
      document.ReadsAs parser value
  | .null, value, h => (Except.ok.inj h).symm
  | .bool _, value, h => (Except.ok.inj h).symm
  | .number literal, value, h => bind_eq_ok.mp h
  | .string literal, value, h => by
    obtain ⟨text, htext, h⟩ := bind_eq_ok.mp h
    exact ⟨text, htext, (Except.ok.inj h).symm⟩
  | .array items, value, h => by
    rw [deserialize, checkRecursion_eq_ok] at h
    obtain ⟨values, hvalue, hreads⟩ := visitSeq_reads h.2
    exact ⟨values, hvalue, hreads⟩
  | .object fields, value, h => by
    rw [deserialize, checkRecursion_eq_ok] at h
    obtain ⟨values, hvalue, hsorted, hgiven, hall, -⟩ := visitMap_reads List.Pairwise.nil h.2
    refine ⟨values, hvalue, hsorted, fun field hfield => ?_, hall⟩
    rcases hgiven field hfield with hone | hnone
    · exact hone
    · cases hnone

theorem ValueVisitor.visitSeq_reads {depth : Nat} : ∀ {items : List (JsonDocument S N)}
    {values : List (JsonValue F)} {value : JsonValue F},
    ValueVisitor.visitSeq parser depth items values = .ok value →
      ∃ others, value = .array (values ++ others) ∧ JsonDocument.ItemsReadAs parser items others
  | [], values, value, h => ⟨[], by rw [List.append_nil]; exact (Except.ok.inj h).symm, rfl⟩
  | item :: rest, values, value, h => by
    obtain ⟨first, hfirst, h⟩ := bind_eq_ok.mp h
    obtain ⟨others, hvalue, hothers⟩ := visitSeq_reads h
    refine ⟨first :: others, ?_, first, others, rfl, deserialize_reads hfirst, hothers⟩
    rw [hvalue, List.append_assoc]
    rfl

/-- The map read so far stays, but for the keys that are given again. -/
theorem ValueVisitor.visitMap_reads {depth : Nat} : ∀ {fields : List (S × JsonDocument S N)}
    {values : List (String × JsonValue F)} {value : JsonValue F}, SortedFields values →
    ValueVisitor.visitMap parser depth fields values = .ok value →
      ∃ result, value = .object result ∧ SortedFields result ∧
        (∀ field ∈ result,
          JsonDocument.OneReadsAs parser fields field.1 field.2 ∨ field ∈ values) ∧
        (∀ field ∈ fields, ∃ key, parser.string field.1 = .ok key ∧
          key ∈ result.map Prod.fst) ∧
        ∀ key ∈ values.map Prod.fst, key ∈ result.map Prod.fst
  | [], values, value, hsorted, h =>
    ⟨values, (Except.ok.inj h).symm, hsorted, fun _ => Or.inr, fun _ h => (nomatch h),
      fun _ => id⟩
  | (literal, item) :: rest, values, value, hsorted, h => by
    obtain ⟨key, hkey, h⟩ := bind_eq_ok.mp h
    obtain ⟨a, ha, h⟩ := bind_eq_ok.mp h
    obtain ⟨result, hvalue, hresult, hgiven, hall, hkept⟩ :=
      visitMap_reads hsorted.mapInsert h
    have hkeys : ∀ other, other = key ∨ other ∈ values.map Prod.fst →
        other ∈ result.map Prod.fst := fun other hother =>
      hkept other (keys_mapInsert.mpr hother)
    refine ⟨result, hvalue, hresult, fun field hfield => ?_, fun field hfield => ?_,
      fun other hother => hkeys other (Or.inr hother)⟩
    · rcases hgiven field hfield with hone | hbefore
      · exact Or.inl (Or.inr hone)
      · rcases mem_mapInsert hbefore with rfl | hbefore
        · exact Or.inl (Or.inl ⟨hkey, deserialize_reads ha⟩)
        · exact Or.inr hbefore
    · rcases List.mem_cons.mp hfield with rfl | hfield
      · exact ⟨key, hkey, hkeys key (Or.inl rfl)⟩
      · exact hall field hfield

end

end Readings

/-! ## What a strict body is -/

section Strict

variable {S N F T : Type} {parser : JsonParser S N F}

/-- What `StrictJson` lets through has one reading, and that is the one it goes on with. -/
theorem StrictJson.fromRequest_reads (hfinite : FiniteNumbers parser)
    {grammar : ByteArray → Except JsonError (JsonDocument S N)}
    {fromValue : JsonValue F → Except JsonError T} {body : Except Nat ByteArray} {request : T}
    (h : StrictJson.fromRequest parser grammar fromValue body = .ok request) :
    ∃ bytes document value, body = .ok bytes ∧ grammar bytes = .ok document ∧
      ValueVisitor.deserialize parser recursionLimit document = .ok value ∧
      fromValue value = .ok request ∧ ∀ other, document.ReadsAs parser other → other = value := by
  unfold fromRequest at h
  cases body with
  | error status => cases h
  | ok bytes =>
    dsimp only at h
    split at h
    · cases h
    · rename_i unique hunique
      split at h
      · cases h
      · rename_i accepted haccepted
        obtain rfl := Except.ok.inj h
        obtain ⟨document, hgrammar, hread⟩ := bind_eq_ok.mp hunique
        obtain ⟨hfree, hvalue⟩ := (UniqueJson.deserialize_iff hfinite _ _ document).mp hread
        refine ⟨bytes, document, unique, rfl, hgrammar, hvalue, haccepted, fun other hother => ?_⟩
        exact hother.unique hfree (ValueVisitor.deserialize_reads hvalue)

/-- `UniqueJson` reads exactly the documents without duplicates, with the value of the ordinary
reading, and a body that `StrictJson` lets through has no second reading. -/
theorem unique_json_exact (hfinite : FiniteNumbers parser) :
    (∀ limit document value, UniqueJson.deserialize parser limit document = .ok value ↔
      document.DuplicateFree parser ∧
        ValueVisitor.deserialize parser limit document = .ok value) ∧
    (∀ limit document, document.depth < limit → document.LiteralsRead parser →
      ((∃ value, UniqueJson.deserialize parser limit document = .ok value) ↔
        document.DuplicateFree parser)) ∧
    ∀ (grammar : ByteArray → Except JsonError (JsonDocument S N))
      (fromValue : JsonValue F → Except JsonError T) body request,
      StrictJson.fromRequest parser grammar fromValue body = .ok request →
        ∃ bytes document value, body = .ok bytes ∧ grammar bytes = .ok document ∧
          ValueVisitor.deserialize parser recursionLimit document = .ok value ∧
          fromValue value = .ok request ∧
          ∀ other, document.ReadsAs parser other → other = value := by
  refine ⟨fun limit document value => UniqueJson.deserialize_iff hfinite limit value document,
    fun limit document hdepth hread => ?_,
    fun grammar fromValue body request h => StrictJson.fromRequest_reads hfinite h⟩
  constructor
  · rintro ⟨value, h⟩
    exact ((UniqueJson.deserialize_iff hfinite limit value document).mp h).1
  · intro hfree
    obtain ⟨value, hvalue⟩ := ValueVisitor.deserialize_ok limit document hdepth hread
    exact ⟨value, (UniqueJson.deserialize_iff hfinite limit value document).mpr ⟨hfree, hvalue⟩⟩

end Strict

/-! ## A key hidden by an escape -/

/-- String literals by their source text, one of them with an escape. -/
def sampleJsonParser : JsonParser String UInt64 Rat where
  string literal := .ok (if literal = "v\\u0061lue" then "value" else literal)
  number literal := .ok (.u64 literal)
  finite _ := true
  display
    | .recursionLimitExceeded => "recursion limit exceeded"
    | .literal message | .custom message => message

/-- `{"condition_id":"a","nested":[{"value":1,"v\u0061lue":2}]}`. -/
def escapedDuplicate : JsonDocument String UInt64 :=
  .object [("condition_id", .string "a"),
    ("nested", .array [.object [("value", .number 1), ("v\\u0061lue", .number 2)]])]

example : UniqueJson.deserialize sampleJsonParser recursionLimit escapedDuplicate =
    .error (.custom "duplicate JSON field `value`") := by
  rfl

theorem unique_json_exact_escaped :
    ¬ ∃ value, UniqueJson.deserialize sampleJsonParser recursionLimit escapedDuplicate =
      .ok value := by
  have hfinite : FiniteNumbers sampleJsonParser := fun _ _ h => nomatch h
  rw [(unique_json_exact (T := Unit) hfinite).2.1 recursionLimit escapedDuplicate (by decide)
    (by simp [escapedDuplicate, JsonDocument.LiteralsRead, JsonDocument.FieldsRead,
      JsonDocument.ItemsRead, sampleJsonParser])]
  simp [escapedDuplicate, JsonDocument.DuplicateFree, JsonDocument.FieldsFree,
    JsonDocument.ItemsFree, sampleJsonParser]

end OddsfoxExecution
