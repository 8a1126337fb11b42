import DocStore.Proofs.Compiling
import DocStore.Proofs.Running
import DocStore.Maintenance

/-!
# Looking groups up

The look-up of a group selects the rows of the index table by an equation of the
group column with the key. It can be compiled for every column that the index
declares, and binds the key as its only parameter unless the key is null.
-/

set_option autoImplicit false

namespace DocStore

/-- An equation of a member with a constant: a test for null, or a comparison with a parameter. -/
theorem Compile.gives_equation {t : Target} {m : Member} {key : Value} {c d : Compilation} {e : Sql}
    (h : Gives (condition t (.binary .eq (.member m) (.const key))) c e d) :
    ∃ b, (c.bindings.find? fun b => b.index = m.index) = some b ∧
      if key.isNull then e = .isNull (.column b.tableAlias m.column) false ∧
        d.parameters = c.parameters
      else e = .binary .eq (.column b.tableAlias m.column) (.param c.parameters.size) ∧
        d.parameters = c.parameters.push (t.dialect.parameter c.parameters.size) key := by
  have comparing :
      Gives (comparison t .eq ⟨.member m, value t (.member m)⟩ ⟨.const key, value t (.const key)⟩) c
        e d := h
  rw [comparison, if_pos (.inl rfl)] at comparing
  -- a member is never a fixed null, so the constant decides
  obtain ⟨first, d₀, hfirst, second⟩ := gives_bind_iff.1 comparing
  obtain ⟨rfl, rfl⟩ := gives_pure_iff.1 hfirst
  obtain ⟨test, d₁, htest, rest⟩ := gives_bind_iff.1 second
  unfold nullTest? at htest
  rw [if_neg (by simp [Expr.isRowDependent])] at htest
  obtain ⟨v, d₂, hv, hnull⟩ := gives_bind_iff.1 htest
  obtain ⟨same, rfl⟩ := gives_ofExcept_iff.1 hv
  cases same
  by_cases null : key.isNull = true
  · rw [if_pos null] at hnull
    obtain ⟨column, d₃, hcolumn, htest⟩ := gives_bind_iff.1 hnull
    obtain ⟨rfl, rfl⟩ := gives_pure_iff.1 htest
    obtain ⟨rfl, rfl⟩ := gives_pure_iff.1 rest
    obtain ⟨_, rfl, b, hb, rfl⟩ :=
      gives_member_iff.1 (show Gives (member m) _ column _ from hcolumn)
    exact ⟨b, hb, by rw [if_pos null]; exact ⟨rfl, rfl⟩⟩
  · rw [if_neg null] at hnull
    obtain ⟨rfl, rfl⟩ := gives_pure_iff.1 hnull
    obtain ⟨left, d₃, hleft, rest⟩ := gives_bind_iff.1 rest
    obtain ⟨_, rfl, b, hb, rfl⟩ := gives_member_iff.1 (show Gives (member m) _ left _ from hleft)
    obtain ⟨right, d₄, hright, last⟩ := gives_bind_iff.1 rest
    obtain ⟨rfl, rfl⟩ := gives_pure_iff.1 last
    obtain ⟨rfl, _, v, hvalue, bound⟩ :=
      gives_bindExpr (show Gives (bindExpr t .exact (.const key)) _ right _ from hright)
    cases hvalue
    exact ⟨b, hb, by rw [if_neg null]; exact ⟨rfl, Affix.apply_exact key ▸ bound⟩⟩

/-- An equation of a known member with a constant can be compiled. -/
theorem Compile.exists_gives_equation (t : Target) {m : Member} (key : Value) {c : Compilation}
    {b : Binding} (known : m.isKnown = true)
    (hb : (c.bindings.find? fun b => b.index = m.index) = some b) :
    ∃ e d, Gives (condition t (.binary .eq (.member m) (.const key))) c e d := by
  have column : Gives (value t (.member m)) c (.column b.tableAlias m.column) c :=
    gives_member_iff.2 ⟨known, rfl, b, hb, rfl⟩
  have comparing :
      ∃ e d,
        Gives (comparison t .eq ⟨.member m, value t (.member m)⟩ ⟨.const key, value t (.const key)⟩)
          c e d := by
    have first :
        Gives (nullTest? t .eq ⟨.member m, value t (.member m)⟩ ⟨.const key, value t (.const key)⟩)
          c none c :=
      gives_pure_iff.2 ⟨rfl, rfl⟩
    rw [comparison, if_pos (.inl rfl)]
    have fixed : ¬(Expr.const key).isRowDependent = true := by simp [Expr.isRowDependent]
    have evaluated : Gives (ofExcept ((Expr.const key).evaluate t.arguments)) c key c :=
      gives_ofExcept_iff.2 ⟨rfl, rfl⟩
    by_cases null : key.isNull = true
    · refine ⟨_, _, gives_bind_iff.2 ⟨none, c, first, gives_bind_iff.2
        ⟨some (.isNull (.column b.tableAlias m.column) false), c, ?_, gives_pure_iff.2 ⟨rfl, rfl⟩⟩⟩⟩
      unfold nullTest?
      rw [if_neg fixed]
      refine gives_bind_iff.2 ⟨key, c, evaluated, ?_⟩
      rw [if_pos null]
      exact gives_bind_iff.2 ⟨_, _, column, gives_pure_iff.2 ⟨rfl, rfl⟩⟩
    · refine ⟨_, _, gives_bind_iff.2 ⟨none, c, first,
        gives_bind_iff.2 ⟨none, c, ?_, gives_bind_iff.2 ⟨_, _, column,
        gives_bind_iff.2 ⟨_, _, show Gives (bindExpr t .exact (.const key)) c _ _ from rfl,
          gives_pure_iff.2 ⟨rfl, rfl⟩⟩⟩⟩⟩⟩
      unfold nullTest?
      rw [if_neg fixed]
      refine gives_bind_iff.2 ⟨key, c, evaluated, ?_⟩
      rw [if_neg null]
      exact gives_pure_iff.2 ⟨rfl, rfl⟩
  exact comparing

/-- What a look-up sends: an equation with the key, or a test for null. -/
theorem Buffer.lookup_eq_ok {b : Buffer} {dialect : Dialect} {key : Value} {q : Statement}
    (h : b.lookup dialect key = .ok q) : ∃ column, b.descriptor.groupColumn = some column ∧
      q = .query (.indexRows b.descriptor.index.name (b.names.index b.descriptor.index.name)
        (if key.isNull then .isNull (.column b.descriptor.index.name column) false
          else .binary .eq (.column b.descriptor.index.name column) (.param 0)) [] none)
        (if key.isNull then ∅ else ⟨[(dialect.parameter 0, key)]⟩) := by
  unfold lookup at h
  split at h
  · cases h
  · next column hcolumn =>
    refine ⟨column, hcolumn, ?_⟩
    obtain ⟨filter, hfilter, h⟩ := bind_eq_ok_iff.1 h
    cases h
    simp only [compileCondition] at hfilter
    split at hfilter
    · next sql c hrun =>
      cases hfilter
      have gives : Compile.Gives _ .start sql c := hrun
      obtain ⟨_, _, hindex, gives⟩ := Compile.gives_bind_iff.1 gives
      rw [Compile.gives_bindIndex_iff] at hindex
      subst hindex
      obtain ⟨_, hb, same⟩ := Compile.gives_equation gives
      rw [List.find?_cons_of_pos (by simp [IndexType.member])] at hb
      cases hb
      split at same
      · next null => rw [same.1, same.2, if_pos null, if_pos null]; rfl
      · next null => rw [same.1, same.2, if_neg null, if_neg null]; rfl
    · cases hfilter

/-- A group can be looked up by a column that the index declares. -/
theorem Buffer.exists_lookup {b : Buffer} (dialect : Dialect) (key : Value) {column : String}
    (hcolumn : b.descriptor.groupColumn = some column)
    (declared : (b.descriptor.index.column? column).isSome) :
    ∃ q, b.lookup dialect key = .ok q := by
  have known : (b.descriptor.index.member column).isKnown = true := by
    have here : (b.descriptor.index.columns.any fun c => c.name = column) = true := by
      rwa [IndexType.column?, List.isSome_find?] at declared
    rw [Member.isKnown, IndexType.member, here, Bool.or_true]
  let index := b.descriptor.index
  obtain ⟨e, d, gives⟩ := Compile.exists_gives_equation ⟨dialect, b.names, none⟩ key
    (c := { Compilation.start with bindings := [⟨index.name, index.name⟩] })
    (b := ⟨index.name, index.name⟩) known
    (List.find?_cons_of_pos (by simp [index, IndexType.member]))
  have compiled :
      compileCondition ⟨dialect, b.names, none⟩ index.name ((index.field column).eq (.const key)) =
      .ok ⟨e, d.parameters⟩ := by
    have whole : Compile.Gives (do
        Compile.bindIndex index.name index.name
        Compile.condition ⟨dialect, b.names, none⟩ ((index.field column).eq (.const key)))
        .start e d :=
      Compile.gives_bind_iff.2 ⟨(), _, Compile.gives_bindIndex_iff.2 rfl, gives⟩
    unfold compileCondition
    dsimp only
    split
    · next run =>
      cases whole.symm.trans run
      rfl
    · next run => cases whole.symm.trans run
  unfold lookup
  rw [hcolumn]
  dsimp only
  rw [compiled]
  exact ⟨_, rfl⟩

end DocStore
