import DocStore.Proofs.SqlMeaning

/-!
# Text searches

`starts_with`, `ends_with` and `contains` on a column become `LIKE`, and the text
that they look for a pattern with a percent sign before it, behind it, or both.
Before a query runs the same methods compare the text character by character.
The query finds every row that they find. It finds no others exactly if the
text has no wildcards in it, as nothing escapes them.
-/

set_option autoImplicit false

namespace DocStore

/-- The column of a member in a row of its innermost binding. -/
def Scope.member (s : Scope) (bs : List Binding) (m : Member) : Value :=
  (s (((bs.find? fun b => b.index = m.index).map Binding.tableAlias).getD m.index)).cell m.column

theorem Row.cell_single (name : String) (v : Value) : cell ⟨[(name, v)]⟩ name = v := by
  rw [cell, value?_cons, if_pos rfl, Option.getD_some]

/-! ## Before the query runs -/

section Host

variable {part text : List Char}

theorem occursIn_iff : occursIn part text = true ↔ part <:+: text := by
  induction text with
  | nil => rw [occursIn, List.isEmpty_iff, List.infix_nil]
  | cons c text ih =>
    rw [occursIn, Bool.or_eq_true, List.isPrefixOf_iff_prefix, ih, List.infix_cons_iff]

theorem Affix.finds_atStart_iff : Affix.atStart.Finds part text ↔ part <+: text := by
  constructor
  · rintro ⟨before, after, rfl, opening, _⟩
    rw [opening rfl]
    exact List.prefix_append part after
  · rintro ⟨after, rfl⟩
    exact ⟨[], after, rfl, fun _ => rfl, fun never => by cases never⟩

theorem Affix.finds_atEnd_iff : Affix.atEnd.Finds part text ↔ part <:+ text := by
  constructor
  · rintro ⟨before, after, rfl, _, closing⟩
    rw [closing rfl, List.append_nil]
    exact List.suffix_append before part
  · rintro ⟨before, rfl⟩
    exact ⟨before, [], by rw [List.append_nil], (fun never => by cases never), fun _ => rfl⟩

theorem Affix.finds_anywhere_iff : Affix.anywhere.Finds part text ↔ part <:+: text := by
  constructor
  · rintro ⟨before, after, rfl, _, _⟩
    exact ⟨before, after, List.append_assoc before part after⟩
  · rintro ⟨before, after, rfl⟩
    exact ⟨before, after, List.append_assoc before part after, (fun never => by cases never),
      fun never => by cases never⟩

end Host

namespace Method

/-- Where a search looks for its text. -/
def affix? : Method → Option Affix
  | .startsWith => some .atStart
  | .endsWith => some .atEnd
  | .contains => some .anywhere
  | _ => none

/-- A search of a text that is known finds the part where it stands. -/
theorem apply_search_iff {method : Method} {affix : Affix} (h : method.affix? = some affix)
    (part text : String) :
    method.apply [.text text, .text part] = .ok (.bool true) ↔
    affix.Finds part.toList text.toList := by
  have ok : ∀ {found : Bool}, (Except.ok (Value.bool found) : Except Error Value) =
      .ok (.bool true) ↔ found = true := by
    intro found
    rw [Except.ok.injEq, Value.bool.injEq]
  cases method with
  | startsWith =>
    cases h
    exact ok.trans (List.isPrefixOf_iff_prefix.trans Affix.finds_atStart_iff.symm)
  | endsWith =>
    cases h
    exact ok.trans (List.isSuffixOf_iff_suffix.trans Affix.finds_atEnd_iff.symm)
  | contains =>
    cases h
    exact ok.trans (occursIn_iff.trans Affix.finds_anywhere_iff.symm)
  | concat | toUpper | toLower | isIn | isNotIn | host _ => cases h

end Method

/-! ## In the query -/

namespace Expr

variable {t : Target} {bs : List Binding} {m : Member} {e : Expr} {method : Method} {affix : Affix}
  {part : String}

/-- A search compares the column with the text that has wildcards around it. -/
theorem image_search (h : method.affix? = some affix) (fixed : e.isRowDependent = false) :
    image t bs .condition (.call method [.member m, e]) =
    .like (memberImage bs .value m) (.placeholder ⟨e, affix⟩) := by
  have row : (Expr.call method [.member m, e]).isRowDependent = true := rfl
  cases method with
  | startsWith | endsWith | contains =>
    cases h
    simp only [image, row, Bool.not_true, Bool.false_eq_true, if_false, depictions, methodImage,
      patternImage, fixed]
  | concat | toUpper | toLower | isIn | isNotIn | host _ => cases h

/-- On a column that holds a text, a search is true where the pattern describes the text. -/
theorem truth?_search (b : Backend) {s : Scope} {text : String} (h : method.affix? = some affix)
    (fixed : e.isRowDependent = false) (value : e.evaluate t.arguments = .ok (.text part))
    (holds : s.member bs m = .text text) :
    (image t bs .condition (.call method [.member m, e])).truth? b (Slot.value t.arguments) s =
      some (matchesPattern (affix.around part.toList) text.toList) := by
  have column : (memberImage bs .value m).value b (Slot.value t.arguments) s = .text text := holds
  have pattern : SqlTree.value b (Slot.value t.arguments) s (.placeholder ⟨e, affix⟩) =
      .text (String.ofList (affix.around part.toList)) := by
    simp only [SqlTree.value, Slot.value, value, Affix.toList_apply]
  rw [image_search h fixed, SqlTree.truth?_like, column, pattern]
  simp [Backend.like, Value.isNull, b.text_text]

/-- A search in a query is true on every row on which the search of the row's text finds the part,
and on no others exactly if there are no wildcards in the part. -/
theorem CompilesTo.search (dialect : t.dialect = .standard ∨ t.dialect = .sqlite)
    (h : method.affix? = some affix) (fixed : e.isRowDependent = false)
    (value : e.evaluate t.arguments = .ok (.text part)) {r : CompiledCondition}
    (compiles : CompilesTo t bs (.call method [.member m, e]) r) (b : Backend) :
    let found : String → Prop := fun text =>
      (Expr.call method [.const (.text text), .const (.text part)]).evaluate none = .ok (.bool true)
    (∀ s text, s.member bs m = .text text → found text → r.truth? t.dialect b s = some true) ∧
      ((∀ s text, s.member bs m = .text text → (r.truth? t.dialect b s = some true ↔ found text)) ↔
        IsLiteral part.toList) := by
  intro found
  have finds : ∀ text, found text ↔ affix.Finds part.toList text.toList :=
    fun text => method.apply_search_iff h part text
  have truth : ∀ {s : Scope} {text : String}, s.member bs m = .text text →
      (r.truth? t.dialect b s = some true ↔
        matchesPattern (affix.around part.toList) text.toList = true) := by
    intro s text holds
    rw [compiles.truth?_eq dialect, truth?_search b h fixed value holds, Option.some.injEq]
  refine ⟨fun s text holds here => (truth holds).2 ((finds text).1 here).matchesPattern, ?_⟩
  rw [← affix.forall_matchesPattern_iff]
  constructor
  · intro agree text
    -- Every text is that of some row.
    have holds : Scope.member (fun _ => ⟨[(m.column, .text (String.ofList text))]⟩) bs m =
        .text (String.ofList text) :=
      Row.cell_single _ _
    have same := (truth holds).symm.trans ((agree _ _ holds).trans (finds _))
    rwa [String.toList_ofList] at same
  · intro agree s text holds
    exact (truth holds).trans ((agree _).trans (finds text).symm)

/-- Titles that begin with some text. -/
def titleStarts (part : String) : Expr :=
  let index : IndexType := ⟨"ByTitle", [⟨"title", .text, true⟩], some⟩
  .call .startsWith [index.field "title", .const (.text part)]

/-- The titles that start with a literal text are found, and with a percent sign
other titles as well. -/
theorem search_titleStarts :
    let t : Target := ⟨.sqlite, ⟨"", ""⟩, none⟩
    let title : Member := ⟨"ByTitle", "title", [⟨"title", .text, true⟩]⟩
    (t.dialect = .standard ∨ t.dialect = .sqlite) ∧ Method.startsWith.affix? = some .atStart ∧
      ∃ r r', compileCondition t "ByTitle" (titleStarts "50") = .ok r ∧
        compileCondition t "ByTitle" (titleStarts "50%") = .ok r' ∧
        ∀ b, (∀ s text, s.member [⟨"ByTitle", "ByTitle"⟩] title = .text text →
            (r.truth? t.dialect b s = some true ↔
              (Expr.call .startsWith [.const (.text text), .const (.text "50")]).evaluate none =
                .ok (.bool true))) ∧
          ¬(∀ s text, s.member [⟨"ByTitle", "ByTitle"⟩] title = .text text →
            (r'.truth? t.dialect b s = some true ↔
              (Expr.call .startsWith [.const (.text text), .const (.text "50%")]).evaluate none =
                .ok (.bool true))) := by
  intro t title
  obtain ⟨r, hr⟩ : ∃ r, compileCondition t "ByTitle" (titleStarts "50") = .ok r := ⟨_, rfl⟩
  obtain ⟨r', hr'⟩ : ∃ r, compileCondition t "ByTitle" (titleStarts "50%") = .ok r := ⟨_, rfl⟩
  refine ⟨.inr rfl, rfl, r, r', hr, hr', fun b => ⟨?_, fun agree => ?_⟩⟩
  · exact (CompilesTo.search (.inr rfl) rfl rfl rfl (Compile.compilesTo_of_compileCondition hr)
      b).2.2 (by decide)
  · have literal :=
      (CompilesTo.search (.inr rfl) rfl rfl rfl (Compile.compilesTo_of_compileCondition hr') b).2.1
        agree
    revert literal
    decide

end Expr

end DocStore
