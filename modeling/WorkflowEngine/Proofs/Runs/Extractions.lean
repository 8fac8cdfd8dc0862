import WorkflowEngine.Proofs.Decoding.Order
import WorkflowEngine.Proofs.Runs.Bindings

/-!
# Extractions from texts and from structures

A payload holds no fractions, so that a JSON value taken as a payload and back has texts where it
had numbers that are no integers of 64 bits. Nothing stands below a number or a text, and names and
places of members and items stay; so a path leads from the one value to what it leads to from the
other, taken as a payload and back. An extraction therefore gives the same for the text of a value
and for the value as a payload.
-/

namespace WorkflowEngine

/-! ## Steps on the way -/

namespace Json

/-- A step down that agrees with a conversion of values leads along any path to converted values. -/
theorem foldlM_map {α : Type} {f : Json → α → Option Json} {g : Json → Json}
    (h : ∀ v a, f (g v) a = (f v a).map g) (path : List α) (v : Json) :
    path.foldlM f (g v) = (path.foldlM f v).map g := by
  induction path generalizing v with
  | nil => rfl
  | cons a rest ih =>
    rw [List.foldlM_cons, List.foldlM_cons, h v a]
    cases f v a with
    | none => rfl
    | some w => exact ih w

/-- A value taken as a payload and back has the same members, taken likewise. -/
theorem member?_toJson_ofJson (v : Json) (name : String) :
    (Payload.ofJson v).toJson.member? name =
      (v.member? name).map fun w => (Payload.ofJson w).toJson := by
  cases v with
  | object members =>
    rw [Payload.ofJson, Payload.toJson, Payload.toJsonMembers_eq_map,
      Payload.ofJsonMembers_eq_map, List.map_map]
    simp only [member?, List.find?_map, Option.map_map]
    rfl
  | number n =>
    cases n with
    | integer n =>
      rw [Payload.ofJson]
      split <;> rfl
    | fraction negative m => rfl
  | null | boolean _ | string _ | array _ => rfl

/-- A value taken as a payload and back has the same steps down, to values taken likewise. -/
theorem child?_toJson_ofJson (v : Json) (segment : String) :
    (Payload.ofJson v).toJson.child? segment =
      (v.child? segment).map fun w => (Payload.ofJson w).toJson := by
  cases v with
  | object members => exact member?_toJson_ofJson (.object members) segment
  | array items =>
    rw [Payload.ofJson, Payload.toJson, Payload.toJsonItems_eq_map, Payload.ofJsonItems_eq_map,
      List.map_map]
    simp only [child?, List.getElem?_map, Option.map_bind]
    rfl
  | number n =>
    cases n with
    | integer n =>
      rw [Payload.ofJson]
      split <;> rfl
    | fraction negative m => rfl
  | null | boolean _ | string _ => rfl

/-- A path leads from a value taken as a payload and back to what it leads to, taken likewise. -/
theorem lookup?_toJson_ofJson (v : Json) (path : String) :
    (Payload.ofJson v).toJson.lookup? path =
      (v.lookup? path).map fun w => (Payload.ofJson w).toJson :=
  foldlM_map child?_toJson_ofJson (pathSegments path) v

/-- Whether a value is an object or a list. -/
def isCollection : Json → Bool
  | .object _ | .array _ => true
  | _ => false

end Json

/-! ## Extractions -/

namespace Executable

/-- The same is extracted from a value taken as a payload and back. -/
theorem extracted_toJson_ofJson (v : Json) (path : String) (spec : ValueSpec) :
    extracted (Payload.ofJson v).toJson path spec = extracted v path spec := by
  unfold extracted
  rw [Json.lookup?_toJson_ofJson]
  cases v.lookup? path with
  | none => rfl
  | some found => simp only [Option.map_some, Payload.ofJson_toJson]

variable {values : ValueSet} {v : Json}

/-- A well-formed text is extracted from as the value that it denotes. -/
theorem extractionInput_of_text {text : String} (hv : Json.ofText? text = some v)
    (h : values.bindings "json" = some (.string text)) (id : ModuleId) :
    extractionInput id values = .ok v := by
  unfold ValueSet.bindings at h
  simp only [extractionInput, h, Payload.readJson, hv]

/-- An object or a list is extracted from as it is. -/
theorem extractionInput_of_collection (hv : v.isCollection = true)
    (h : values.bindings "json" = some (.ofJson v)) (id : ModuleId) :
    extractionInput id values = .ok (Payload.ofJson v).toJson := by
  unfold ValueSet.bindings at h
  cases v with
  | object members => simp only [extractionInput, h, Payload.ofJson]
  | array items => simp only [extractionInput, h, Payload.ofJson]
  | null | boolean _ | number _ | string _ => cases hv

/-- What an extraction works on is all that it depends on. -/
theorem runExtract_of_input {id : ModuleId} {input : List Value}
    (h : extractionInput id ⟨input⟩ = .ok v) (signature : Signature) (path : String) :
    runExtract id signature path input =
      .ofExcept (.ok (produce signature (extracted v path))) := by
  unfold runExtract
  rw [h]
  rfl

end Executable

namespace Module

/-- Where the text of an object or of a list is bound to the name that an extraction reads, it runs
as it does where the value itself is bound to it, as a payload. In both cases each output holds what
stands at the path, brought closer to the declared type, or an empty text where nothing does. -/
theorem run_extraction {text : String} {v : Json} (hv : Json.ofText? text = some v)
    (hcollection : v.isCollection = true) {written structured : List Value}
    (hwritten : (ValueSet.mk written).bindings "json" = some (.string text))
    (hstructured : (ValueSet.mk structured).bindings "json" = some (.ofJson v)) (c : Context)
    (id : ModuleId) (signature : Signature) (path : String) :
    let m : Module := .mk id signature (.jsonExtract path)
    m.run c written = m.run c structured ∧
      (m.run c structured).outcome = .ok (signature.output.map fun spec =>
        ⟨spec, match v.lookup? path with
          | some found => (Payload.ofJson found).coerce spec.type
          | none => .string ""⟩) := by
  intro m
  have hfirst : m.run c written =
      .ofExcept (.ok (Executable.produce signature (Executable.extracted v path))) :=
    Executable.runExtract_of_input (Executable.extractionInput_of_text hv hwritten id) signature
      path
  have hinput := Executable.extractionInput_of_collection hcollection hstructured id
  have hsecond : m.run c structured =
      .ofExcept (.ok (Executable.produce signature (Executable.extracted v path))) := by
    have hextracted : Executable.extracted (Payload.ofJson v).toJson path =
        Executable.extracted v path :=
      funext (Executable.extracted_toJson_ofJson v path)
    rw [← hextracted]
    exact Executable.runExtract_of_input hinput signature path
  rw [hfirst, hsecond]
  exact ⟨rfl, rfl⟩

/-- A fraction in a list is extracted from the text that holds it as it is from the payload, which
holds only its text. -/
theorem run_extraction_fraction :
    let text := "\x7b\"a\":[null,1.5]\x7d"
    let p : Payload := .object [("a", .list [.null, .string "1.5"])]
    let m : Module := .mk "pick" .jsonExtract (.jsonExtract "a.1")
    ∃ v, Json.ofText? text = some v ∧ v.isCollection = true ∧ Payload.ofJson v = p ∧
      m.run (.new "run") [.ofText "json" text] =
        m.run (.new "run") [⟨.required "json" .object, p⟩] ∧
      (m.run (.new "run") [.ofText "json" text]).outcome =
        .ok [⟨.required "value" .string, .string "1.5"⟩] := by
  intro text p m
  have hpayload : (Json.ofText? text).map Payload.ofJson = some p := by decide +kernel
  have hcollection : (Json.ofText? text).map Json.isCollection = some true := by decide +kernel
  obtain ⟨v, hv, hp⟩ := Option.map_eq_some_iff.1 hpayload
  rw [hv] at hcollection
  have hstructured : (ValueSet.mk [⟨.required "json" .object, p⟩]).bindings "json" =
      some (.ofJson v) := by
    rw [hp]
    rfl
  have hwritten : (ValueSet.mk [.ofText "json" text]).bindings "json" = some (.string text) := rfl
  have hruns := (run_extraction hv (Option.some.inj hcollection) hwritten hstructured (.new "run")
    "pick" .jsonExtract "a.1").1
  refine ⟨v, hv, Option.some.inj hcollection, hp, hruns, ?_⟩
  rw [hruns]
  rfl

end Module

end WorkflowEngine
