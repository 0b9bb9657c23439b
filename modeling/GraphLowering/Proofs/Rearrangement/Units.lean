import GraphLowering.Proofs.Rearrangement.Dependencies
import GraphLowering.Unit

/-!
# Rearrangement — units

Apart from the dependencies, nothing that is generated for a unit goes over the values of an object:
a literal reads its class and its path, and the defaults read one field at a time.  So each step of
lowering and of emission is the same step when values are rearranged.

* `Lowering.lowerBody_withObjects`, `Defaults.constructorCode_withObjects`: bodies and constructors.
* `ScriptUnit.sourceCode_withObjects`: the source of a unit, given its dependencies.
* `ScriptUnit.emit_order_independent`: under distinct names, everything that is generated for a unit
  is the same, in whatever order fields were set.
-/

namespace GraphLowering

variable {cx : Context} {s : ObjectStore}

namespace ObjectStore.Rearranged

/-! ### Literals -/

theorem contextPathName (hs : cx.objects.Rearranged s) :
    (cx.withObjects s).pathName = cx.pathName :=
  congrFun hs.pathName cx.schema

theorem contextFieldValue (hs : cx.objects.Rearranged s) :
    (cx.withObjects s).fieldValue = cx.fieldValue :=
  congrFun hs.fieldValue cx.schema

theorem renderElement (hs : cx.objects.Rearranged s) :
    Literal.renderElement (cx.withObjects s) = Literal.renderElement cx := by
  funext t v
  unfold Literal.renderElement
  simp only [hs.contextPathName]
  split <;> try rfl
  rename_i o _
  rcases hs.object o with ⟨record, values, ho, ho', -⟩ | ⟨fault, ho, ho'⟩
  · rw [ho, ho']
    rfl
  · rw [ho, ho']

theorem render (hs : cx.objects.Rearranged s) :
    Literal.render (cx.withObjects s) = Literal.render cx := by
  funext t v
  unfold Literal.render
  rw [hs.renderElement]
  rfl

theorem defaultText (hs : cx.objects.Rearranged s) :
    Literal.defaultText (cx.withObjects s) = Literal.defaultText cx := by
  funext t
  unfold Literal.defaultText
  rw [hs.render]

end ObjectStore.Rearranged

/-! ### Lowering -/

namespace Lowering

abbrev Env.withObjects (env : Env) (s : ObjectStore) : Env := ⟨env.cx.withObjects s, env.graph⟩

section

variable {env : Env} (hs : env.cx.objects.Rearranged s)

include hs

theorem literalText_withObjects : literalText (env.withObjects s) = literalText env := by
  funext t v
  unfold literalText
  rw [hs.render, hs.defaultText]

theorem argumentTexts_withObjects (r : Renderer) (stmt : Statement) (i : Nat)
    (args : List (FieldDecl × TermId)) :
    argumentTexts (env.withObjects s) r stmt i args = argumentTexts env r stmt i args := by
  induction args generalizing i with
  | nil => rfl
  | cons arg rest ih =>
      unfold argumentTexts argumentText latentInfoText
      simp only [ih, literalText_withObjects hs]
      rfl

theorem callText_withObjects (r : Renderer) :
    callText (env.withObjects s) r = callText env r := by
  funext stmt
  unfold callText callArguments
  simp only [argumentTexts_withObjects hs]
  rfl

theorem termText_withObjects (r : Renderer) :
    termText (env.withObjects s) r = termText env r := by
  funext checked id
  unfold termText inlineText valueText checkedPath
  simp only [literalText_withObjects hs, callText_withObjects hs, hs.defaultText]
  rfl

theorem rendererFrom_withObjects (n : Nat) :
    rendererFrom (env.withObjects s) n = rendererFrom env n := by
  induction n with
  | zero => rfl
  | succ n ih =>
      unfold rendererFrom
      rw [ih, termText_withObjects hs]

theorem renderer_withObjects : (env.withObjects s).renderer = env.renderer :=
  rendererFrom_withObjects hs env.graph.height

theorem text_withObjects : (env.withObjects s).text = env.text := by
  funext id
  unfold Env.text
  rw [renderer_withObjects hs]

theorem path_withObjects : (env.withObjects s).path = env.path := by
  funext id
  unfold Env.path
  rw [renderer_withObjects hs]

theorem storing_withObjects : storing (env.withObjects s) = storing env := by
  funext lhs body
  unfold storing
  rw [renderer_withObjects hs, path_withObjects hs]
  rfl

theorem containerElements_withObjects (array : String) (i : Nat) (elements : List TermId) :
    containerElements (env.withObjects s) array i elements =
      containerElements env array i elements := by
  induction elements generalizing i with
  | nil => rfl
  | cons element rest ih =>
      unfold containerElements
      rw [ih, text_withObjects hs]

theorem lowerStatement_withObjects (comments : CommentOptions) :
    lowerStatement comments (env.withObjects s) = lowerStatement comments env := by
  funext id
  simp only [lowerStatement, lowerCall, lowerCallDelegate, lowerAssign, lowerComputedGoto,
    jumpUnless, lowerDynamicCast, lowerMetaCast, lowerInterfaceCast, lowerInterfaceToObject,
    lowerObjectToBool, lowerDelegateEdit, delegateEdit?, lowerCreateContainer, convertedText,
    assignTo, storing_withObjects hs, text_withObjects hs, path_withObjects hs,
    literalText_withObjects hs, callText_withObjects hs, renderer_withObjects hs,
    containerElements_withObjects hs]
  rfl

theorem lowerBody_withObjects (comments : CommentOptions) :
    lowerBody comments (env.withObjects s) = lowerBody comments env := by
  have hchunk : lowerChunk comments (env.withObjects s) = lowerChunk comments env := by
    funext isLoop id
    unfold lowerChunk
    rw [lowerStatement_withObjects hs]
    rfl
  unfold lowerBody
  rw [hchunk]

end

end Lowering

/-! ### Defaults -/

namespace Defaults

theorem liftM_ok_bind {α β : Type} (a : α) (f : α → Emit β) :
    ((liftM (.ok a : Except Fault α) : Emit α) >>= f) = f a :=
  rfl

theorem liftM_error_bind {α β : Type} (fault : Fault) (f : α → Emit β) :
    ((liftM (.error fault : Except Fault α) : Emit α) >>= f) = throw fault :=
  rfl

section

variable (hs : cx.objects.Rearranged s)

include hs

theorem oneLine_withObjects : oneLine (cx.withObjects s) = oneLine cx := by
  funext spawn t v
  unfold oneLine
  rw [hs.render, hs.defaultText]

theorem emitItems_withObjects (spawn : Spawn) (emitMember : FieldEmitter) (t : ValueType)
    (place : Place) (i : Nat) (items : List Value) :
    emitItems (cx.withObjects s) spawn emitMember t place i items =
      emitItems cx spawn emitMember t place i items := by
  induction items generalizing i with
  | nil => rfl
  | cons item rest ih =>
      unfold emitItems
      simp only [ih, oneLine_withObjects hs]
      rfl

theorem emitFieldWith_withObjects :
    emitFieldWith (cx.withObjects s) = emitFieldWith cx := by
  funext spawn emitMember allowProtected field v base place
  unfold emitFieldWith emitValue emitArray
  simp only [emitItems_withObjects hs, oneLine_withObjects hs]
  rfl

theorem emitMemberFrom_withObjects (spawn : Spawn) (n : Nat) :
    emitMemberFrom (cx.withObjects s) spawn n = emitMemberFrom cx spawn n := by
  induction n with
  | zero => rfl
  | succ n ih =>
      unfold emitMemberFrom
      rw [ih, emitFieldWith_withObjects hs]

theorem emitField_withObjects : emitField (cx.withObjects s) = emitField cx := by
  funext spawn allowProtected field v base place
  unfold emitField
  rw [emitMemberFrom_withObjects hs, emitFieldWith_withObjects hs]

theorem startValue_withObjects : startValue (cx.withObjects s) = startValue cx := by
  funext archetype field
  unfold startValue
  rw [hs.contextFieldValue]

theorem emitObjectWith_withObjects :
    emitObjectWith (cx.withObjects s) = emitObjectWith cx := by
  funext spawn object archetype place allowProtected
  unfold emitObjectWith
  rw [hs.contextFieldValue, startValue_withObjects hs, emitField_withObjects hs]
  rcases hs.object object with ⟨record, values, ho, ho', -⟩ | ⟨fault, ho, ho'⟩
  · rw [ho, ho']
    rfl
  · rw [ho, ho']

/-- Creation again reads of an object all but its values. -/
theorem recreate_withObjects (spawn : Spawn) (object : ObjectId) (o : ObjectRecord)
    (values : List (FieldId × Value)) (owner : LocalNames.Owner) :
    recreate (cx.withObjects s) spawn object { o with values } owner =
      recreate cx spawn object o owner := by
  unfold recreate archetypeFor
  simp only [hs.findSubobject?, emitObjectWith_withObjects hs]

theorem spawnFrom_withObjects (n : Nat) :
    spawnFrom (cx.withObjects s) n = spawnFrom cx n := by
  induction n with
  | zero => rfl
  | succ n ih =>
      funext object
      unfold spawnFrom
      rcases hs.object object with ⟨record, values, ho, ho', -⟩ | ⟨fault, ho, ho'⟩
      · rw [ho, ho', ih, liftM_ok_bind, liftM_ok_bind]
        simp only [recreate_withObjects hs]
      · rw [ho, ho', liftM_error_bind, liftM_error_bind]

theorem emitSubobject_withObjects : emitSubobject (cx.withObjects s) = emitSubobject cx := by
  unfold emitSubobject
  rw [spawnFrom_withObjects hs, hs.height]

theorem rebind_withObjects (names : LocalNames) (slot : Nat) (objects : List ObjectId) :
    rebind (cx.withObjects s) names slot objects = rebind cx names slot objects := by
  induction objects generalizing slot with
  | nil => rfl
  | cons object rest ih =>
      refine hs.object_bind object fun record values _ _ => ?_
      rw [ih]

theorem emitConstructor_withObjects :
    emitConstructor (cx.withObjects s) = emitConstructor cx := by
  unfold emitConstructor emitInstanceValues inheritedValue
  simp only [emitSubobject_withObjects hs, rebind_withObjects hs, startValue_withObjects hs,
    emitField_withObjects hs, hs.contextFieldValue]
  rfl

theorem constructorCode_withObjects :
    constructorCode (cx.withObjects s) = constructorCode cx := by
  funext sink
  unfold constructorCode
  rw [emitConstructor_withObjects hs]

theorem structFactoryCode_withObjects :
    structFactoryCode (cx.withObjects s) = structFactoryCode cx := by
  funext type sink
  unfold structFactoryCode emitDefaultMembers
  simp only [emitField_withObjects hs, emitSubobject_withObjects hs]

end

end Defaults

/-! ### Units -/

namespace ScriptUnit

theorem includes_withObjects (deps : List Dependency) :
    Dependencies.includes (cx.withObjects s) deps = Dependencies.includes cx deps := by
  induction deps with
  | nil => rfl
  | cons dep rest ih =>
      cases dep with
      | type id =>
          unfold Dependencies.includes
          rw [ih]
      | object id => exact ih

theorem headerIncludes_withObjects (deps : Dependencies) :
    deps.headerIncludes (cx.withObjects s) = deps.headerIncludes cx :=
  includes_withObjects deps.header

theorem implementationIncludes_withObjects (deps : Dependencies) :
    deps.implementationIncludes (cx.withObjects s) = deps.implementationIncludes cx :=
  includes_withObjects deps.implementation

section

variable (hs : cx.objects.Rearranged s)

include hs

theorem lowerFunction_withObjects (comments : CommentOptions) :
    lowerFunction comments (cx.withObjects s) = lowerFunction comments cx := by
  funext graph resumeStates sink
  have henv : (Lowering.Env.mk cx graph).cx.objects.Rearranged s := hs
  exact congrArg (fun body : Lowering.Lower LoweredFunction => body.run _)
    (Lowering.lowerBody_withObjects henv comments)

theorem lowerAll_withObjects (comments : CommentOptions) (graphs : List FunctionGraph)
    (resumeStates : Option StateMap) (sink : Sink) :
    lowerAll comments (cx.withObjects s) graphs resumeStates sink =
      lowerAll comments cx graphs resumeStates sink := by
  induction graphs generalizing resumeStates sink with
  | nil => rfl
  | cons g rest ih =>
      unfold lowerAll
      simp only [ih, lowerFunction_withObjects hs]

/-- **Given the dependencies, the source of a unit does not depend on the order of values.** -/
theorem sourceCode_withObjects (comments : CommentOptions) (u : ScriptUnit) :
    u.sourceCode comments (cx.withObjects s) = u.sourceCode comments cx := by
  funext deps kind sink
  unfold sourceCode lowerBodies classDeclaration classImplementation structDeclaration
    enumDeclaration interfaceDeclaration
  simp only [lowerAll_withObjects hs, lowerFunction_withObjects hs,
    Defaults.constructorCode_withObjects hs, Defaults.structFactoryCode_withObjects hs,
    headerIncludes_withObjects, implementationIncludes_withObjects]
  rfl

theorem emit_of_rearranged (hnames : cx.NamesDistinct) {u : ScriptUnit}
    {comments : CommentOptions} {sink : Sink} {r : UnitSource × Sink}
    (h : u.emit comments cx sink = .ok r) : u.emit comments (cx.withObjects s) sink = .ok r := by
  obtain ⟨t, ht, h⟩ := Lookup.of_bind_ok h
  obtain ⟨deps, hdeps, h⟩ := Lookup.of_bind_ok h
  rw [emit, Lookup.bind_of_ok ht, Lookup.bind_of_ok (gather_of_rearranged hnames hs hdeps),
    sourceCode_withObjects hs]
  exact h

/-- Under distinct names, a unit has the same source and the same diagnostics, in either order. -/
theorem emit_iff_of_rearranged (hnames : cx.NamesDistinct) (u : ScriptUnit)
    (comments : CommentOptions) (sink : Sink) (r : UnitSource × Sink) :
    u.emit comments (cx.withObjects s) sink = .ok r ↔ u.emit comments cx sink = .ok r :=
  have hback : (cx.withObjects s).objects.Rearranged cx.objects := hs.symm
  ⟨emit_of_rearranged hback (hs.namesDistinct hnames), emit_of_rearranged hs hnames⟩

end

/-- **What is generated for a unit does not depend on the order of values.**  Under distinct names,
rearranging the values of live objects changes neither the declaration nor the implementation, the
dependencies or the diagnostics.  Neither does setting fields in another order, as long as each is
last given the same. -/
theorem emit_order_independent (hnames : cx.NamesDistinct) (u : ScriptUnit)
    (comments : CommentOptions) (sink : Sink) :
    (∀ s, cx.objects.Rearranged s → ∀ r,
      u.emit comments (cx.withObjects s) sink = .ok r ↔ u.emit comments cx sink = .ok r) ∧
    ∀ (base : ObjectStore) (sets sets' : List ((ObjectId × FieldId) × Value)),
      base.FieldsDistinct → base.setAll sets = .ok cx.objects →
      (∀ place, sets'.reverse.lookup place = sets.reverse.lookup place) →
      ∃ s, base.setAll sets' = .ok s ∧ ∀ r,
        u.emit comments (cx.withObjects s) sink = .ok r ↔ u.emit comments cx sink = .ok r := by
  refine ⟨fun s hs => emit_iff_of_rearranged hs hnames u comments sink, ?_⟩
  intro base sets sets' hbase hsets hsame
  obtain ⟨s, hsets', hs⟩ := ObjectStore.setAll_rearranged hbase hsets hsame
  exact ⟨s, hsets', emit_iff_of_rearranged hs hnames u comments sink⟩

/-- A default object that owns a twin, and a light that is loaded by its path. -/
def twinEdits : List Edit :=
  [.addClass "Hero" none, .addClass "Lamp" none, .addClass "Torch" (some ⟨1⟩),
    .changeType ⟨0⟩ [.defaultObject (some ⟨0⟩)],
    .addField ⟨0⟩ "Twin" (.object ⟨0⟩), .addField ⟨0⟩ "Light" (.object ⟨1⟩),
    .addObject "Default__Hero" ⟨0⟩ (.package "/Game"), .addObject "Twin" ⟨0⟩ (.object ⟨0⟩),
    .addObject "Beam" ⟨2⟩ (.package "/Game")]

def twinWorld : World := (World.build twinEdits).toOption.getD {}

/-- The default object is its own twin at first. -/
def twinSets : List ((ObjectId × FieldId) × Value) :=
  [((⟨0⟩, ⟨0⟩), .object (some ⟨0⟩)), ((⟨0⟩, ⟨0⟩), .object (some ⟨1⟩)),
    ((⟨0⟩, ⟨1⟩), .object (some ⟨2⟩)), ((⟨1⟩, ⟨0⟩), .object (some ⟨0⟩))]

def twinSets' : List ((ObjectId × FieldId) × Value) :=
  [((⟨1⟩, ⟨0⟩), .object (some ⟨0⟩)), ((⟨0⟩, ⟨1⟩), .object (some ⟨2⟩)),
    ((⟨0⟩, ⟨0⟩), .object (some ⟨1⟩))]

def twinContext : Context :=
  (twinWorld.context ⟨0⟩).withObjects ((twinWorld.objects.setAll twinSets).toOption.getD {})

theorem emit_order_independent_twin :
    twinContext.NamesDistinct ∧ ∃ s r, twinWorld.objects.setAll twinSets' = .ok s ∧
      (twinContext.objects.objects.toList.map fun o => o.values.map (·.1)) =
        [[⟨0⟩, ⟨1⟩], [⟨0⟩], []] ∧
      (s.objects.toList.map fun o => o.values.map (·.1)) = [[⟨1⟩, ⟨0⟩], [⟨0⟩], []] ∧
      r.1.dependencies = ⟨[.type ⟨1⟩], [.object ⟨2⟩, .type ⟨2⟩]⟩ ∧
      emit {} twinContext ⟨⟨0⟩, []⟩ {} = .ok r ∧
      emit {} (twinContext.withObjects s) ⟨⟨0⟩, []⟩ {} = .ok r := by
  have hnames : twinContext.NamesDistinct := namesDistinct_of_forall (by decide +kernel)
  have hbuild : World.build twinEdits = .ok twinWorld := rfl
  have hsame : ∀ place, twinSets'.reverse.lookup place = twinSets.reverse.lookup place := by
    intro place
    simp only [twinSets, twinSets', List.reverse_cons, List.reverse_nil, List.nil_append,
      List.cons_append, lookup_cons_ite]
    by_cases htwin : place = (⟨0⟩, ⟨0⟩)
    · subst htwin
      rfl
    by_cases hlight : place = (⟨0⟩, ⟨1⟩)
    · subst hlight
      rfl
    · simp only [if_neg htwin, if_neg hlight]
  obtain ⟨s, hs, hemit⟩ := (emit_order_independent hnames ⟨⟨0⟩, []⟩ {} {}).2 twinWorld.objects
    twinSets twinSets' (World.build_fieldsDistinct hbuild) rfl hsame
  obtain ⟨r, hr, hdeps⟩ : ∃ r, emit {} twinContext ⟨⟨0⟩, []⟩ {} = .ok r ∧
      r.1.dependencies = ⟨[.type ⟨1⟩], [.object ⟨2⟩, .type ⟨2⟩]⟩ := ⟨_, rfl, by decide +kernel⟩
  obtain rfl : (twinWorld.objects.setAll twinSets').toOption.getD {} = s :=
    Except.ok.inj (rfl.trans hs)
  exact ⟨hnames, _, r, hs, by decide +kernel, by decide +kernel, hdeps, hr, (hemit r).mpr hr⟩

end ScriptUnit
end GraphLowering
