import WorkflowEngine.Proofs.Decoding.Outcomes

/-!
# Writing and reading belong together

What is written for a specification, or for any part of one, is decoded into it again. The payloads
in it have to be in order, as everything that is decoded is: so decoding, writing and decoding again
is the same as decoding once, whatever the language that was decoded first.
-/

namespace WorkflowEngine

open Decoding

/-- What makes a decoder belong to what is written for things of which some are proper. -/
structure RoundTrips {α : Type} (Proper : α → Prop) (toJson : α → Json)
    (read : (σ : Type) → [Source σ] → σ → Except Failure α) : Prop where
  /-- What is written for a proper thing is decoded into it from a JSON text in which lists and
  objects may nest at least as deep as they do in the written value. -/
  text {a : α} {depth : Nat} : Proper a → (toJson a).depth ≤ depth →
    read JsonPart ⟨depth, .ofJson (toJson a)⟩ = .ok a
  /-- So it is from content that was taken over. -/
  content {a : α} : Proper a → read Content (.ofJson (toJson a)) = .ok a
  /-- Only proper things are decoded, from whichever language. -/
  proper {σ : Type} [Source σ] [OrderedSource σ] {s : σ} {a : α} : read σ s = .ok a → Proper a
  /-- Decoding again what is written for something decoded changes nothing. -/
  again {σ : Type} [Source σ] [OrderedSource σ] (s : σ) :
    (read σ s >>= fun a => read Content (.ofJson (toJson a))) = read σ s

/-- A decoder that decodes written things whatever presents them, and proper things only, belongs to
what is written. -/
theorem RoundTrips.of_shows {α : Type} {Proper : α → Prop} {toJson : α → Json}
    {read : (σ : Type) → [Source σ] → σ → Except Failure α}
    (hread : ∀ {σ : Type} [Source σ] (P : Presentation σ) {s : σ} {a : α}, Proper a →
      P.Shows s (toJson a) → read σ s = .ok a)
    (hproper : ∀ {σ : Type} [Source σ] [OrderedSource σ] {s : σ} {a : α}, read σ s = .ok a →
      Proper a) : RoundTrips Proper toJson read where
  text h hd := hread .ofSyntax h ⟨rfl, hd⟩
  content h := hread .ofContent h rfl
  proper h := hproper h
  again {σ _ _} s := by
    cases h : read σ s with
    | error e => rfl
    | ok a => exact hread .ofContent (hproper h) rfl

/-- Modules, their steps, cases and kinds, signatures, declarations, values, payloads and whole
documents are decoded into what they were written for, as soon as the payloads in them are in
order; and whatever is decoded is so. -/
theorem roundTrips_specifications :
    RoundTrips ModuleSpec.Ordered ModuleSpec.toJson (fun _ _ => ModuleSpec.read) ∧
    RoundTrips (fun t : Step ModuleSpec => t.child.Ordered)
      (fun t => Step.toJson ⟨t.child.toJson, t.mapping⟩) (fun _ _ => Step.read) ∧
    RoundTrips (fun c : Case ModuleSpec => c.key.Ordered ∧ c.child.Ordered)
      (fun c => Case.toJson ⟨c.key, c.child.toJson⟩) (fun _ _ => Case.read) ∧
    RoundTrips Kind.Ordered Kind.toJson (fun _ _ => Kind.read) ∧
    RoundTrips (fun _ => True) Signature.toJson (fun _ _ => Signature.read) ∧
    RoundTrips (fun _ => True) ValueSpec.toJson (fun _ _ => ValueSpec.read) ∧
    RoundTrips (fun v => v.payload.Ordered) Value.toJson (fun _ _ => Value.read) ∧
    RoundTrips Payload.Ordered Payload.toJson (fun _ _ => Payload.read) ∧
    RoundTrips (fun specs => ∀ t ∈ specs, t.Ordered) WorkflowDocument.toJson
      (fun _ _ => readDocument) := by
  have hmodules : RoundTrips ModuleSpec.Ordered ModuleSpec.toJson (fun _ _ => ModuleSpec.read) :=
    .of_shows (fun _ _ _ ht hs => ModuleSpec.read_of_shows ht hs) ModuleSpec.ordered_of_read
  have hchild {σ : Type} [Source σ] (p : σ) (c : ModuleSpec) (hc : ModuleSpec.read p = .ok c) :
      c.Ordered :=
    ModuleSpec.ordered_of_read hc
  refine ⟨hmodules, .of_shows ?_ ?_, .of_shows ?_ ?_, .of_shows ?_ ?_, .of_shows ?_ ?_,
    .of_shows ?_ ?_, .of_shows ?_ ?_, .of_shows ?_ ?_, .of_shows ?_ ?_⟩
  · exact fun _ _ _ ht hs => Step.read_of_shows ht hs
  · exact fun h => Step.ordered_of_readWith hchild h
  · exact fun _ _ _ hc hs => Case.read_of_shows hc.1 hc.2 hs
  · exact fun h => Case.ordered_of_readWith hchild h
  · exact fun _ _ _ hk hs => Kind.read_of_shows hk hs
  · exact fun h => Kind.ordered_of_read h
  · exact fun _ _ _ _ hs => Signature.read_of_shows hs
  · exact fun _ => trivial
  · exact fun _ _ _ _ hs => ValueSpec.read_of_shows hs
  · exact fun _ => trivial
  · exact fun _ _ _ hv hs => Value.read_of_shows hv hs
  · exact fun h => Value.ordered_of_read h
  · exact fun _ _ _ hp hs => Payload.read_of_shows hp hs
  · exact fun h => Payload.ordered_of_read h
  · exact fun _ _ _ h hs => readDocument_of_shows h hs
  · exact fun h => ordered_of_readDocument h

/-- An object that is a key. -/
def OrderedPayload.pair : OrderedPayload :=
  .object (.ofList [("a", .integer 7), ("b", .list [.null, .string "c"])])

/-- A sequence that depends on another workflow, calls it under a mapping, and then selects by an
object. -/
def ModuleSpec.selecting : ModuleSpec :=
  .mk "main" (Signature.empty.withDependency "other") (.sequential
    [⟨.call "other", .ofList [("x", "y")]⟩,
      ⟨.mk "select" .empty (.switch "kind" [⟨OrderedPayload.pair.tree, .http "fetch"⟩]
        (some (.jsonExtract "rest" "a.b"))), .empty⟩])

/-- The key of its case is an ordered payload, which makes the module ordered. -/
theorem ModuleSpec.ordered_selecting : selecting.Ordered := by
  refine .mk nofun (List.forall_mem_cons.2 ⟨.mk nofun nofun, List.forall_mem_singleton.2 ?_⟩)
  refine .mk (List.forall_mem_singleton.2 OrderedPayload.pair.ordered)
    (List.forall_mem_cons.2 ⟨.mk nofun nofun, ?_⟩)
  exact List.forall_mem_singleton.2 (.mk nofun nofun)

/-- The sequence is decoded into itself. -/
theorem ModuleSpec.read_selecting :
    selecting.Ordered ∧ read (Content.ofJson selecting.toJson) = .ok selecting :=
  ⟨ordered_selecting, roundTrips_specifications.1.content ordered_selecting⟩

end WorkflowEngine
