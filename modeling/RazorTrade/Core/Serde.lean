import Mathlib.Data.List.Nodup
import RazorTrade.Core.Json

/-! # Structs read from JSON objects

What a derived `Deserialize` makes of an object: a key that the struct knows comes at most
once, other keys are skipped, and a missing key is an error unless the field is an `Option`
or has a default.  The errors carry no position, and where several fields are wrong it is the
error of the first declared one.

  `field?_eq` :  with distinct keys, reading a field is looking it up -/

namespace RazorTrade

namespace Json

abbrev Fields : Type := List (String × Json)

variable {α : Type}

/-- The value of a key. -/
def value? (fields : Fields) (key : String) : Option Json :=
  (fields.find? fun f => f.1 = key).map Prod.snd

/-- The value of a key that may come once. -/
def field? (fields : Fields) (key : String) : Except String (Option Json) :=
  match fields.filter fun f => f.1 = key with
  | [] => .ok none
  | [f] => .ok (some f.2)
  | _ => .error ("duplicate field `" ++ key ++ "`")

/-- A field of a type that has no value for a missing key. -/
def required (read : Json → Except String α) (fields : Fields) (key : String) :
    Except String α := do
  match ← field? fields key with
  | some v => read v
  | none => .error ("missing field `" ++ key ++ "`")

/-- `Option<T>`, of a value that may be missing or null. -/
def optionOf (read : Json → Except String α) : Option Json → Except String (Option α)
  | none | some .null => .ok none
  | some v => (read v).map some

/-- A field of type `Option<T>`. -/
def optional (read : Json → Except String α) (fields : Fields) (key : String) :
    Except String (Option α) := do
  optionOf read (← field? fields key)

/-- A field with `#[serde(default)]`. -/
def defaulted (default : α) (read : Json → Except String α) (fields : Fields) (key : String) :
    Except String α := do
  match ← field? fields key with
  | some v => read v
  | none => return default

/-- `String`. -/
def text : Json → Except String String
  | .str s => .ok s
  | _ => .error "invalid type, expected a string"

/-- `Vec<T>`. -/
def array (read : Json → Except String α) : Json → Except String (List α)
  | .arr xs => xs.mapM read
  | _ => .error "invalid type, expected a sequence"

/-- The fields of an object. -/
def object : Json → Except String Fields
  | .obj fields => .ok fields
  | _ => .error "invalid type, expected a map"

/-! ## Lemmas -/

theorem optionOf_num (read : Json → Except String α) (t : String) :
    optionOf read (some (.num t)) = (read (.num t)).map some := rfl

theorem text_eq_ok {j : Json} {s : String} (h : text j = .ok s) : j = .str s := by
  unfold text at h
  split at h
  · rw [Except.ok.inj h]
  · cases h

section Lookup

variable {fields : Fields} {key : String} {v : Json}

/-- The keys are distinct. -/
def Distinct (fields : Fields) : Prop := (fields.map Prod.fst).Nodup

theorem value?_cons (f : String × Json) (fields : Fields) (key : String) :
    value? (f :: fields) key = if f.1 = key then some f.2 else value? fields key := by
  unfold value?
  rw [List.find?_cons]
  by_cases h : f.1 = key
  · simp [h]
  · simp [h]

theorem value?_eq_none : value? fields key = none ↔ ∀ v, (key, v) ∉ fields := by
  unfold value?
  rw [Option.map_eq_none_iff, List.find?_eq_none]
  constructor
  · intro h v hv
    simpa using h (key, v) hv
  · rintro h ⟨k, v⟩ hf
    simp only [decide_eq_true_eq]
    rintro rfl
    exact h v hf

theorem value?_eq_some (h : Distinct fields) : value? fields key = some v ↔ (key, v) ∈ fields := by
  induction fields with
  | nil => simp [value?]
  | cons f fields ih =>
    obtain ⟨k, u⟩ := f
    obtain ⟨hnew, hrest⟩ := List.nodup_cons.mp h
    rw [value?_cons, List.mem_cons]
    by_cases hk : k = key
    · subst hk
      have hnot : (k, v) ∉ fields := fun hv => hnew (List.mem_map.mpr ⟨_, hv, rfl⟩)
      simp [hnot, eq_comm]
    · simp [hk, ih hrest, Ne.symm hk]

/-- **Distinct keys.** -/
theorem field?_eq (h : Distinct fields) : field? fields key = .ok (value? fields key) := by
  have hfilter : fields.filter (fun f => f.1 = key) =
      ((value? fields key).map fun v => (key, v)).toList := by
    induction fields with
    | nil => rfl
    | cons f fields ih =>
      obtain ⟨k, u⟩ := f
      obtain ⟨hnew, hrest⟩ := List.nodup_cons.mp h
      rw [value?_cons, List.filter_cons]
      by_cases hk : k = key
      · subst hk
        have hnone : value? fields k = none :=
          value?_eq_none.mpr fun v hv => hnew (List.mem_map.mpr ⟨_, hv, rfl⟩)
        simp [ih hrest, hnone]
      · simp [hk, ih hrest]
  unfold field?
  rw [hfilter]
  cases value? fields key <;> rfl

theorem required_eq (read : Json → Except String α) (h : Distinct fields)
    (hv : (key, v) ∈ fields) : required read fields key = read v := by
  unfold required
  rw [field?_eq h, (value?_eq_some h).mpr hv]
  rfl

theorem required_missing (read : Json → Except String α) (h : Distinct fields)
    (hv : ∀ v, (key, v) ∉ fields) :
    required read fields key = .error ("missing field `" ++ key ++ "`") := by
  unfold required
  rw [field?_eq h, value?_eq_none.mpr hv]
  rfl

theorem optional_eq (read : Json → Except String α) (h : Distinct fields) :
    optional read fields key = optionOf read (value? fields key) := by
  unfold optional
  rw [field?_eq h]
  rfl

end Lookup

end Json

end RazorTrade
