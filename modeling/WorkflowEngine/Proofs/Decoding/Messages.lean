import WorkflowEngine.Decoding.Fault
import Mathlib.Data.List.Infix

/-!
# What messages speak of

A message quotes texts of the document between words of its own. It speaks of a missing field just
where the fault is that one is missing, unless a text that it quotes does: between a quoted text and
the words around it there is always a mark that does not stand in "missing field ".
-/

namespace WorkflowEngine

/-! ## Occurrences of words -/

section Occurrences

variable {α : Type} {w a b : List α} {c : α}

/-- Words do not begin before a mark and reach over it. -/
theorem prefix_append_cons_iff (hc : c ∉ w) : w <+: a ++ c :: b ↔ w <+: a := by
  induction a generalizing w with
  | nil =>
    cases w with
    | nil => simp
    | cons d w =>
      have hd : d ≠ c := fun h => hc (h ▸ List.mem_cons_self)
      simp [List.cons_prefix_cons, hd]
  | cons d a ih =>
    cases w with
    | nil => simp
    | cons e w =>
      rw [List.cons_append, List.cons_prefix_cons, List.cons_prefix_cons,
        ih fun h => hc (List.mem_cons_of_mem e h)]

/-- Words do not reach over a mark that does not stand in them. -/
theorem infix_append_cons_iff (hc : c ∉ w) : w <:+: a ++ c :: b ↔ w <:+: a ∨ w <:+: b := by
  induction a with
  | nil =>
    have hprefix : w <+: c :: b ↔ w <+: [] := prefix_append_cons_iff (a := []) hc
    rw [List.nil_append, List.infix_cons_iff, hprefix, List.prefix_nil, List.infix_nil]
  | cons d a ih =>
    have hprefix : w <+: d :: (a ++ c :: b) ↔ w <+: d :: a :=
      prefix_append_cons_iff (a := d :: a) hc
    rw [List.cons_append, List.infix_cons_iff, List.infix_cons_iff, ih, hprefix, or_assoc]

/-- Words do not begin before the first place where their first character stands. -/
theorem infix_append_iff_of_notMem (hc : c ∉ a) : c :: w <:+: a ++ b ↔ c :: w <:+: b := by
  induction a with
  | nil => rfl
  | cons d a ih =>
    obtain ⟨hd, ha⟩ := List.ne_and_not_mem_of_not_mem_cons hc
    rw [List.cons_append, List.infix_cons_iff, ih ha, List.cons_prefix_cons]
    simp [hd]

end Occurrences

namespace Decoding

/-! ## Texts that do not speak of missing fields -/

/-- The words before the name of a missing field. -/
def missingWords : List Char := "missing field ".toList

/-- Whether a text does not have these words in it. -/
def Silent (s : String) : Prop := ¬ missingWords <:+: s.toList

instance (s : String) : Decidable (Silent s) := inferInstanceAs (Decidable (¬ _))

/-- Words that can stand between texts: no occurrence of "missing field " reaches into them. -/
def separates (s : String) : Bool :=
  s.toList.head?.any (fun c => c ∉ missingWords) && 'm' ∉ s.toList

namespace Silent

variable {s t u : String}

/-- A text that is given by its characters. -/
theorem ofList {cs : List Char}
    (h : ¬ ['m', 'i', 's', 's', 'i', 'n', 'g', ' ', 'f', 'i', 'e', 'l', 'd', ' '] <:+: cs) :
    Silent (.ofList cs) := by
  have hwords : missingWords =
      ['m', 'i', 's', 's', 'i', 'n', 'g', ' ', 'f', 'i', 'e', 'l', 'd', ' '] := String.toList_ofList
  unfold Silent
  rwa [String.toList_ofList, hwords]

/-- A text without an m is silent. -/
theorem of_notMem (h : 'm' ∉ s.toList) : Silent s := by
  intro hs
  exact h (hs.subset (by decide))

/-- A text without an m may be put before a silent one. -/
theorem append_left (hs : 'm' ∉ s.toList) (ht : Silent t) : Silent (s ++ t) := by
  intro h
  rw [String.toList_append] at h
  exact ht ((infix_append_iff_of_notMem (w := "issing field ".toList) hs).1 h)

/-- Texts are silent with words between them if each of them is. -/
theorem between (hs : Silent s) (hu : separates u = true) (ht : Silent t) :
    Silent (s ++ u ++ t) := by
  intro h
  rw [separates, Bool.and_eq_true, Option.any_eq_true] at hu
  obtain ⟨⟨c, hc, hmark⟩, hm⟩ := hu
  obtain ⟨rest, hrest⟩ := List.head?_eq_some_iff.1 hc
  rw [decide_eq_true_eq] at hmark hm
  rw [String.append_assoc, String.toList_append, String.toList_append, hrest, List.cons_append,
    infix_append_cons_iff hmark] at h
  rcases h with h | h
  · exact hs h
  · have hm' : 'm' ∉ rest := fun h => hm (hrest ▸ List.mem_cons_of_mem c h)
    exact ht ((infix_append_iff_of_notMem (w := "issing field ".toList) hm').1 h)

/-- Words that separate texts may be put after a silent one. -/
theorem append_right (hs : Silent s) (hu : separates u = true) : Silent (s ++ u) := by
  have h := hs.between hu (t := "") (by decide)
  rwa [String.append_empty] at h

end Silent

/-! ## What is named in messages -/

/-- A character is quoted as itself or by an escape without an m. -/
theorem quoteChar_eq (c : Char) :
    quoteChar c = [c] ∨ ∃ e, quoteChar c = '\\' :: e ∧ 'm' ∉ '\\' :: e := by
  unfold quoteChar
  split_ifs
  iterate 6 exact .inr ⟨_, rfl, by decide⟩
  · have hdigits : ∀ n < 0x80, 'm' ∉ Nat.toDigits 16 n := by decide
    have hn : c.toNat < 0x80 := by omega
    refine .inr ⟨'u' :: '\x7b' :: (Nat.toDigits 16 c.toNat ++ ['\x7d']), rfl, ?_⟩
    simp [hdigits c.toNat hn]
  · exact .inl rfl

/-- Words without a backslash that begin what is quoted begin the text itself. -/
theorem prefix_of_prefix_flatMap_quoteChar {w cs : List Char} (hw : '\\' ∉ w)
    (h : w <+: cs.flatMap quoteChar) : w <+: cs := by
  induction cs generalizing w with
  | nil => exact h
  | cons c cs ih =>
    cases w with
    | nil => exact List.nil_prefix
    | cons d w =>
      obtain ⟨hd, hw⟩ := List.ne_and_not_mem_of_not_mem_cons hw
      rw [List.flatMap_cons] at h
      rcases quoteChar_eq c with hc | ⟨e, hc, _⟩
      · rw [hc, List.singleton_append, List.cons_prefix_cons] at h
        exact List.cons_prefix_cons.2 ⟨h.1, ih hw h.2⟩
      · rw [hc, List.cons_append, List.cons_prefix_cons] at h
        exact absurd h.1.symm hd

/-- What is quoted has no more words in it than the text itself. -/
theorem infix_of_infix_flatMap_quoteChar {cs : List Char}
    (h : missingWords <:+: cs.flatMap quoteChar) : missingWords <:+: cs := by
  induction cs with
  | nil => exact h
  | cons c cs ih =>
    have hflat : (c :: cs).flatMap quoteChar = quoteChar c ++ cs.flatMap quoteChar :=
      List.flatMap_cons
    rcases quoteChar_eq c with hc | ⟨e, hc, hm⟩
    · rw [hflat, hc, List.singleton_append, List.infix_cons_iff] at h
      rcases h with h | h
      · rw [← List.singleton_append, ← hc, ← hflat] at h
        exact (prefix_of_prefix_flatMap_quoteChar (by decide) h).isInfix
      · exact List.infix_cons (ih h)
    · rw [hflat, hc] at h
      exact List.infix_cons (ih ((infix_append_iff_of_notMem (w := "issing field ".toList) hm).1 h))

theorem silent_describeText {s : String} (h : Silent s) : Silent (describeText s) := by
  have hs : Silent (String.ofList (s.toList.flatMap quoteChar)) := by
    intro hs
    rw [String.toList_ofList] at hs
    exact h (infix_of_infix_flatMap_quoteChar hs)
  exact (Silent.append_left (by decide) hs).append_right (by decide)

theorem notMem_repr (n : Nat) : 'm' ∉ n.repr.toList := by
  rw [Nat.toList_repr]
  intro h
  have hdigit : 'm'.isDigit = true := Nat.isDigit_of_mem_toDigits (by decide) (by decide) h
  exact absurd hdigit (by decide)

theorem notMem_intRepr (n : Int) : 'm' ∉ n.repr.toList := by
  cases n with
  | ofNat n => exact notMem_repr n
  | negSucc n =>
    rw [Int.repr, String.toList_append]
    exact List.not_mem_append (by decide) (notMem_repr (n + 1))

theorem silent_integer (n : Int) : Silent s!"integer \x60{n}\x60" := by
  have h : 'm' ∉ ("integer \x60" ++ n.repr ++ "\x60").toList := by
    rw [String.toList_append, String.toList_append]
    exact List.not_mem_append (List.not_mem_append (by decide) (notMem_intRepr n)) (by decide)
  exact .of_notMem h

/-- Nothing but the texts in a content can be heard in its name. -/
theorem silent_describe {c : Content} (h : ∀ s, c = .text s → Silent s) : Silent (describe c) := by
  cases c with
  | text s => exact silent_describeText (h s rfl)
  | boolean b => cases b <;> decide
  | integer n => exact silent_integer n
  | null | floating _ | list _ | map _ => exact .ofList (by decide)

/-- Names between marks are one text between marks, in which no two of the names run together. -/
theorem exists_intercalate {name : String} {names : List String} (h : Silent name)
    (hnames : ∀ n ∈ names, Silent n) :
    ∃ s, Silent s ∧ String.intercalate ", " ((name :: names).map fun n => "\x60" ++ n ++ "\x60") =
      "\x60" ++ s ++ "\x60" := by
  induction names generalizing name with
  | nil => exact ⟨name, h, String.intercalate_singleton⟩
  | cons n names ih =>
    obtain ⟨hn, hnames⟩ := List.forall_mem_cons.1 hnames
    obtain ⟨s, hs, hrest⟩ := ih hn hnames
    have hmarks : separates ("\x60" ++ (", " ++ "\x60")) = true := by decide
    refine ⟨name ++ ("\x60" ++ (", " ++ "\x60")) ++ s, h.between hmarks hs, ?_⟩
    rw [List.map_cons] at hrest ⊢
    rw [List.map_cons, String.intercalate_cons_cons, hrest]
    simp only [String.append_assoc]

theorem silent_listNames {names : List String} (h : ∀ name ∈ names, Silent name) :
    Silent (listNames names) := by
  have hquoted {s : String} (hs : Silent s) : Silent ("\x60" ++ s ++ "\x60") :=
    (Silent.append_left (by decide) hs).append_right (by decide)
  match names with
  | [] => exact .ofList (by decide)
  | [a] => exact hquoted (h a List.mem_cons_self)
  | [a, b] =>
    obtain ⟨ha, hb⟩ := List.forall_mem_cons.1 h
    have hor : separates ("\x60" ++ (" or " ++ "\x60")) = true := by decide
    have hboth := hquoted (ha.between hor (hb b List.mem_cons_self))
    simp only [String.append_assoc] at hboth
    unfold listNames
    simpa only [List.map_cons, List.map_nil, String.append_assoc] using hboth
  | a :: b :: c :: rest =>
    obtain ⟨ha, hrest⟩ := List.forall_mem_cons.1 h
    obtain ⟨s, hs, hlist⟩ := exists_intercalate ha hrest
    have hmany : Silent ("one of " ++ ("\x60" ++ s ++ "\x60")) :=
      .append_left (by decide) (hquoted hs)
    rw [← hlist] at hmany
    exact hmany

/-! ## The messages of faults -/

namespace Fault

theorem silent_duplicateField {name : String} (h : Silent name) :
    Silent (duplicateField name).message :=
  (Silent.append_left (by decide) h).append_right (by decide)

theorem silent_unknownField {name : String} {known : List String} (h : Silent name)
    (hknown : ∀ n ∈ known, Silent n) : Silent (unknownField name known).message :=
  (Silent.append_left (by decide) h).between (by decide) (silent_listNames hknown)

theorem silent_unknownVariant {name : String} {known : List String} (h : Silent name)
    (hknown : ∀ n ∈ known, Silent n) : Silent (unknownVariant name known).message :=
  (Silent.append_left (by decide) h).between (by decide) (silent_listNames hknown)

theorem silent_invalidType {found expected : String} (h : Silent found) (he : Silent expected) :
    Silent (invalidType found expected).message :=
  (Silent.append_left (by decide) h).between (by decide) he

theorem silent_invalidValue {found expected : String} (h : Silent found) (he : Silent expected) :
    Silent (invalidValue found expected).message :=
  (Silent.append_left (by decide) h).between (by decide) he

theorem silent_invalidLength (n : Nat) : Silent (invalidLength n).message := by
  have h : 'm' ∉ ("invalid length " ++ n.repr).toList := by
    rw [String.toList_append]
    exact List.not_mem_append (by decide) (notMem_repr n)
  exact .of_notMem h

end Fault

/-- The message of a failure is silent if its place and that of its fault are. -/
theorem Failure.silent_message {f : Failure} (hplace : ∀ place ∈ f.place, Silent place)
    (h : Silent f.fault.message) : Silent f.message := by
  unfold message
  split
  · rename_i place hsome
    split_ifs
    · exact h
    · exact (hplace place hsome).between (by decide) h
  · exact h

end Decoding

end WorkflowEngine
