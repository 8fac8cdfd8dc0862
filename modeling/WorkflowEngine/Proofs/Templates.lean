import WorkflowEngine.Proofs.Runs.Bindings

/-!
# Templates and substitution

A template is filled by replacing one name after the other, and what has been put in takes part in
the replacements that follow. If no text that is put in has a mark of a placeholder in it, nothing
of this shows: each round turns the placeholders of one name into plain text and leaves all others
whole, so that in the end every placeholder has been replaced by what its name was bound to in the
beginning.
-/

namespace WorkflowEngine

namespace Template

/-! ## Parts of templates -/

/-- A part of a template. -/
inductive Piece where
  /-- Text that stands for itself. -/
  | literal (text : List Char)
  /-- A placeholder. -/
  | reference (name : String)

/-- A name that a placeholder can hold: neither the mark in front of a placeholder nor the one at
its end stands in it. -/
def ProperName (name : String) : Prop := '$' ∉ name.toList ∧ '\x7d' ∉ name.toList

instance (name : String) : Decidable (ProperName name) := inferInstanceAs (Decidable (_ ∧ _))

namespace Piece

/-- How a part is written. -/
def text : Piece → List Char
  | .literal text => text
  | .reference name => placeholder name

/-- Whether a part is what it looks like: the mark in front of a placeholder stands in front of
placeholders only, and names are proper. -/
def Proper : Piece → Prop
  | .literal text => '$' ∉ text
  | .reference name => ProperName name

instance (p : Piece) : Decidable p.Proper :=
  match p with
  | .literal text => inferInstanceAs (Decidable ('$' ∉ text))
  | .reference name => inferInstanceAs (Decidable (ProperName name))

/-- A part with the text of its name, if there is one, in place of a placeholder. -/
def filled (texts : String → Option String) : Piece → List Char
  | .literal text => text
  | .reference name => ((texts name).map String.toList).getD (placeholder name)

/-- A part after the placeholders of one value have been replaced. -/
def settle (p : Piece) (v : Value) : Piece :=
  match p with
  | .literal text => .literal text
  | .reference name =>
    if v.name = name then .literal v.payload.text.toList else .reference name

end Piece

/-- A template of given parts. -/
def ofPieces (pieces : List Piece) : String := String.ofList (pieces.flatMap Piece.text)

/-- A template of given parts in which all placeholders that there is a text for are replaced at
once. -/
def substitute (texts : String → Option String) (pieces : List Piece) : String :=
  String.ofList (pieces.flatMap (Piece.filled texts))

/-- The values whose names are declared. -/
def used (declared : List ValueSpec) (input : List Value) : List Value :=
  input.filter fun v => declared.any fun s => s.name == v.name

/-- The text of what a declared name is bound to. -/
def textOf? (declared : List ValueSpec) (input : List Value) (name : String) : Option String :=
  if declared.any fun s => s.name == name then
    (Bindings.ofList input name).map Payload.text
  else none

/-! ## Replacing a pattern -/

section Replace

variable {pattern replacement rest : List Char} {c : Char}

theorem replaceFrom_eq_drop (skip : Nat) (text : List Char) :
    replaceFrom pattern replacement skip text =
      replaceAll pattern replacement (text.drop skip) := by
  induction text generalizing skip with
  | nil => simp [replaceAll, replaceFrom]
  | cons d rest ih =>
    cases skip with
    | zero => rfl
    | succ skip => rw [replaceFrom, ih, List.drop_succ_cons]

/-- Where the pattern does not stand, one character is passed. -/
theorem replaceAll_cons (h : ¬ pattern <+: c :: rest) :
    replaceAll pattern replacement (c :: rest) = c :: replaceAll pattern replacement rest := by
  rw [← List.isPrefixOf_iff_prefix, Bool.not_eq_true] at h
  rw [replaceAll, replaceFrom]
  simp only [h, Bool.false_eq_true, if_false]
  rfl

/-- Text without the first character of the pattern is left alone. -/
theorem replaceAll_append_of_notMem {text : List Char} (h : c ∉ text) :
    replaceAll (c :: pattern) replacement (text ++ rest) =
      text ++ replaceAll (c :: pattern) replacement rest := by
  induction text with
  | nil => rfl
  | cons d text ih =>
    obtain ⟨hd, htext⟩ := List.ne_and_not_mem_of_not_mem_cons h
    have hfirst : ¬ c :: pattern <+: d :: (text ++ rest) :=
      fun hprefix => hd (List.cons_prefix_cons.1 hprefix).1
    rw [List.cons_append, replaceAll_cons hfirst, ih htext, List.cons_append]

/-- The pattern itself is replaced. -/
theorem replaceAll_self_append :
    replaceAll (c :: pattern) replacement (c :: pattern ++ rest) =
      replacement ++ replaceAll (c :: pattern) replacement rest := by
  have hfirst : (c :: pattern).isPrefixOf (c :: (pattern ++ rest)) = true := by
    rw [List.isPrefixOf_iff_prefix, ← List.cons_append]
    exact List.prefix_append _ _
  rw [List.cons_append, replaceAll, replaceFrom]
  simp only [hfirst, if_true]
  rw [replaceFrom_eq_drop, List.length_cons, Nat.add_sub_cancel, List.drop_left]

end Replace

/-! ## Replacing a placeholder -/

/-- Texts without a mark that end with it begin one with the other only if they are equal. -/
theorem eq_of_prefix_append {a b rest : List Char} {c : Char} (ha : c ∉ a) (hb : c ∉ b)
    (h : a ++ [c] <+: b ++ c :: rest) : a = b := by
  induction a generalizing b with
  | nil =>
    cases b with
    | nil => rfl
    | cons d b =>
      have hd : c = d := (List.cons_prefix_cons.1 h).1
      exact absurd (hd ▸ List.mem_cons_self) hb
  | cons d a ih =>
    cases b with
    | nil =>
      have hd : d = c := (List.cons_prefix_cons.1 h).1
      exact absurd (hd ▸ List.mem_cons_self) ha
    | cons e b =>
      obtain ⟨hd, hrest⟩ := List.cons_prefix_cons.1 h
      have hab := ih (fun hc => ha (List.mem_cons_of_mem d hc))
        (fun hc => hb (List.mem_cons_of_mem e hc)) hrest
      rw [hd, hab]

/-- A placeholder begins with another one only if both hold the same name. -/
theorem eq_of_prefix_placeholder {m n : String} {rest : List Char} (hm : ProperName m)
    (hn : ProperName n) (h : placeholder m <+: placeholder n ++ rest) : m = n := by
  unfold placeholder at h
  rw [List.cons_append, List.cons_append, List.cons_append, List.cons_append,
    List.append_assoc] at h
  have hnames := (List.cons_prefix_cons.1 (List.cons_prefix_cons.1 h).2).2
  exact String.toList_inj.1 (eq_of_prefix_append hm.2 hn.2 hnames)

/-- The placeholder of one name is left alone where that of another is replaced. -/
theorem replaceAll_placeholder_of_ne {m n : String} (hm : ProperName m) (hn : ProperName n)
    (hne : m ≠ n) (replacement rest : List Char) :
    replaceAll (placeholder m) replacement (placeholder n ++ rest) =
      placeholder n ++ replaceAll (placeholder m) replacement rest := by
  have hfirst : ¬ placeholder m <+: placeholder n ++ rest :=
    fun h => hne (eq_of_prefix_placeholder hm hn h)
  -- Behind the first character nothing can begin another placeholder.
  have hbehind : '$' ∉ '\x7b' :: n.toList ++ ['\x7d'] := by simp [hn.1]
  calc replaceAll (placeholder m) replacement (placeholder n ++ rest)
      = '$' :: replaceAll (placeholder m) replacement ('\x7b' :: n.toList ++ ['\x7d'] ++ rest) :=
        replaceAll_cons hfirst
    _ = placeholder n ++ replaceAll (placeholder m) replacement rest :=
        congrArg ('$' :: ·) (replaceAll_append_of_notMem hbehind)

/-! ## Rounds of replacement -/

namespace Piece

/-- A value settles the references to its name. -/
theorem settle_self (v : Value) : (reference v.name).settle v = .literal v.payload.text.toList :=
  if_pos rfl

theorem settle_of_ne {v : Value} {name : String} (h : v.name ≠ name) :
    (reference name).settle v = .reference name :=
  if_neg h

/-- Parts remain what they look like when a text without marks is put in. -/
theorem Proper.settle {p : Piece} (hp : p.Proper) {v : Value}
    (hv : '$' ∉ v.payload.text.toList) : (p.settle v).Proper := by
  cases p with
  | literal text => exact hp
  | reference name =>
    by_cases h : v.name = name
    · rw [← h, settle_self]
      exact hv
    · rw [settle_of_ne h]
      exact hp

/-- Replacing the placeholders of a value in a text that begins with a part settles the part. -/
theorem replaceAll_text_append {p : Piece} (hp : p.Proper) {v : Value} (hv : ProperName v.name)
    (rest : List Char) :
    replaceAll (placeholder v.name) v.payload.text.toList (p.text ++ rest) =
      (p.settle v).text ++ replaceAll (placeholder v.name) v.payload.text.toList rest := by
  cases p with
  | literal text => exact replaceAll_append_of_notMem hp
  | reference name =>
    by_cases h : v.name = name
    · rw [← h, settle_self]
      exact replaceAll_self_append
    · rw [settle_of_ne h]
      exact replaceAll_placeholder_of_ne hv hp h _ rest

end Piece

/-- One round of replacement settles every part. -/
theorem fill_pieces {pieces : List Piece} (hpieces : ∀ p ∈ pieces, p.Proper) {v : Value}
    (hv : ProperName v.name) :
    fill (pieces.flatMap Piece.text) v =
      (pieces.map fun p => p.settle v).flatMap Piece.text := by
  induction pieces with
  | nil => rfl
  | cons p rest ih =>
    obtain ⟨hp, hrest⟩ := List.forall_mem_cons.1 hpieces
    rw [List.flatMap_cons, List.map_cons, List.flatMap_cons, ← ih hrest]
    exact Piece.replaceAll_text_append hp hv _

/-- All rounds settle every part by all values. -/
theorem foldl_fill_pieces {values : List Value}
    (hvalues : ∀ v ∈ values, ProperName v.name ∧ '$' ∉ v.payload.text.toList)
    {pieces : List Piece} (hpieces : ∀ p ∈ pieces, p.Proper) :
    values.foldl fill (pieces.flatMap Piece.text) =
      (pieces.map fun p => values.foldl Piece.settle p).flatMap Piece.text := by
  induction values generalizing pieces with
  | nil => simp
  | cons v rest ih =>
    obtain ⟨⟨hname, htext⟩, hrest⟩ := List.forall_mem_cons.1 hvalues
    have hsettled : ∀ p ∈ pieces.map (fun p => p.settle v), p.Proper :=
      List.forall_mem_map.2 fun p hp => (hpieces p hp).settle htext
    rw [List.foldl_cons, fill_pieces hpieces hname, ih hrest hsettled, List.map_map]
    rfl

/-- What is settled stays as it is. -/
theorem foldl_settle_literal (values : List Value) (text : List Char) :
    values.foldl Piece.settle (.literal text) = .literal text := by
  induction values with
  | nil => rfl
  | cons v rest ih => exact ih

/-- A placeholder is settled by the first value of its name. -/
theorem text_foldl_settle (values : List Value) (p : Piece) :
    (values.foldl Piece.settle p).text =
      p.filled fun name => (Bindings.ofList values name).map Payload.text := by
  cases p with
  | literal text =>
    rw [foldl_settle_literal]
    rfl
  | reference name =>
    induction values with
    | nil => rfl
    | cons v rest ih =>
      rw [List.foldl_cons]
      by_cases h : v.name = name
      · rw [← h, Piece.settle_self, foldl_settle_literal]
        simp [Piece.text, Piece.filled, Bindings.ofList]
      · rw [Piece.settle_of_ne h, ih]
        simp [Piece.filled, Bindings.ofList, h]

/-- The declared values bind a name to what all of them do if it is declared, and else to
nothing. -/
theorem ofList_used (declared : List ValueSpec) (input : List Value) (name : String) :
    (Bindings.ofList (used declared input) name).map Payload.text =
      textOf? declared input name := by
  unfold textOf? Bindings.ofList used
  rw [List.find?_filter]
  split
  · next h =>
    congr 3
    funext v
    by_cases hv : v.name = name
    · simp only [hv, h, and_self, decide_true, BEq.rfl]
    · simp only [beq_false_of_ne hv, Bool.false_eq_true, and_false, decide_false]
  · next h =>
    have hnone : ∀ v ∈ input, ¬ decide ((declared.any fun s => s.name == v.name) = true ∧
        (v.name == name) = true) = true := by
      intro v _ hv
      obtain ⟨hdeclared, hname⟩ := of_decide_eq_true hv
      exact h (beq_iff_eq.1 hname ▸ hdeclared)
    rw [List.find?_eq_none.2 hnone]
    rfl

/-- A template is rendered as its pieces with their texts in place of the references. -/
theorem render_ofPieces {pieces : List Piece} (hpieces : ∀ p ∈ pieces, p.Proper)
    {declared : List ValueSpec} (hdeclared : ∀ s ∈ declared, ProperName s.name)
    {input : List Value} (htexts : ∀ v ∈ used declared input, '$' ∉ v.payload.text.toList) :
    render declared (ofPieces pieces) input = substitute (textOf? declared input) pieces := by
  have hvalues : ∀ v ∈ used declared input, ProperName v.name ∧ '$' ∉ v.payload.text.toList := by
    intro v hv
    obtain ⟨s, hs, hname⟩ := List.any_eq_true.1 (List.mem_filter.1 hv).2
    exact ⟨beq_iff_eq.1 hname ▸ hdeclared s hs, htexts v hv⟩
  have hpiece (p : Piece) : ((used declared input).foldl Piece.settle p).text =
      p.filled (textOf? declared input) := by
    rw [text_foldl_settle, funext (ofList_used declared input)]
  unfold render ofPieces substitute
  rw [String.toList_ofList]
  refine congrArg String.ofList ((foldl_fill_pieces hvalues hpieces).trans ?_)
  rw [List.flatMap_map, funext hpiece]

/-- Where no marks stand in literal text, in declared names and in the texts of declared values,
filling a template replaces at once each placeholder of a declared name that something is bound to
by the text of that, and leaves every other one as it is. If no two declared values have the same
name, it comes neither to their order nor to values that are not declared. -/
theorem render_eq_substitute {pieces : List Piece} (hpieces : ∀ p ∈ pieces, p.Proper)
    {declared : List ValueSpec} (hdeclared : ∀ s ∈ declared, ProperName s.name)
    {input : List Value} (htexts : ∀ v ∈ used declared input, '$' ∉ v.payload.text.toList) :
    render declared (ofPieces pieces) input = substitute (textOf? declared input) pieces ∧
      (((used declared input).map Value.name).Nodup →
        ∀ input', (used declared input').Perm (used declared input) →
          render declared (ofPieces pieces) input' = render declared (ofPieces pieces) input) := by
  refine ⟨render_ofPieces hpieces hdeclared htexts, fun hnodup input' hperm => ?_⟩
  have htexts' : ∀ v ∈ used declared input', '$' ∉ v.payload.text.toList :=
    fun v hv => htexts v (hperm.mem_iff.1 hv)
  have hsame : textOf? declared input' = textOf? declared input := by
    funext name
    rw [← ofList_used, ← ofList_used, Bindings.ofList_perm hperm.symm hnodup]
  rw [render_ofPieces hpieces hdeclared htexts, render_ofPieces hpieces hdeclared htexts', hsame]

/-- The parts of a template with names that begin or end with one another, of which one is not
declared. -/
def storyPieces : List Piece :=
  [.literal "Write ".toList, .reference "count", .literal " on ".toList, .reference "topic",
    .reference "top", .reference "other", .literal "\x7bcount\x7d".toList]

/-- The declarations of a module that fills the template. -/
def storyInputs : List ValueSpec :=
  [.required "top" .any, .required "topic" .string, .required "count" .integer]

/-- Whatever the order of the input is, the placeholders of declared names are filled; a name that
is not declared is left alone, although a value with a mark in it is bound to it. -/
theorem render_story :
    let input : List Value := [.ofText "topic" "\x7btop\x7d", .ofInteger "count" 2,
      .ofText "other" "$\x7bcount\x7d", ⟨.required "top" .list, .list [.null]⟩]
    render storyInputs (ofPieces storyPieces) input =
        substitute (textOf? storyInputs input) storyPieces ∧
      render storyInputs (ofPieces storyPieces) input.reverse =
        render storyInputs (ofPieces storyPieces) input ∧
      substitute (textOf? storyInputs input) storyPieces =
        "Write 2 on \x7btop\x7d[null]$\x7bother\x7d\x7bcount\x7d" := by
  intro input
  have hpieces : ∀ p ∈ storyPieces, p.Proper := by decide +kernel
  have hdeclared : ∀ s ∈ storyInputs, ProperName s.name := by decide +kernel
  have htexts : ∀ v ∈ used storyInputs input, '$' ∉ v.payload.text.toList := by decide +kernel
  have hnodup : ((used storyInputs input).map Value.name).Nodup := by decide +kernel
  have hperm : (used storyInputs input.reverse).Perm (used storyInputs input) := by decide +kernel
  obtain ⟨hrender, horder⟩ := render_eq_substitute hpieces hdeclared htexts
  exact ⟨hrender, horder hnodup _ hperm, by decide +kernel⟩

end Template

end WorkflowEngine
