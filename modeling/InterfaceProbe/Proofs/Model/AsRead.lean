/-
# Types as they are read

A spelling puts no parentheses around the element of a channel.  Where the element
of a bidirectional channel only receives, its arrow stands behind the keyword of
the outer one, so that the outer channel is read as one that only sends and the
element as one without a direction.  `GoType.asRead` is the outline of a type with
that done everywhere.  It is the outline unless there is such a pair, and then it
never is.
-/

import InterfaceProbe.Proofs.Model.Outline

namespace InterfaceProbe

section Readings

/-- What is read where the keyword of a channel stands before the text of a type: an arrow at the
beginning of that text belongs to the keyword. -/
def GoType.behindChan : GoType → GoType
  | .chan .recv elem => .chan .send elem.behindChan
  | elem => .chan .both elem

variable (qualifiers : Qualifiers) (localPackage : String)

mutual

/-- The outline of a type with each arrow where it is read. -/
def GoType.asRead : GoType → GoType
  | .named package name => .predeclared (spelledName qualifiers localPackage package name)
  | .pointer elem => .pointer elem.asRead
  | .array len elem => .array len elem.asRead
  | .map key value => .map key.asRead value.asRead
  | .chan .both elem => elem.asRead.behindChan
  | .chan .recv elem => .chan .recv elem.asRead
  | .chan .send elem => .chan .send elem.asRead
  | .func params results variadic =>
    .func (parametersAsRead params) (parametersAsRead results) (optionAsRead variadic)
  | .struct fields => .struct (fieldsAsRead fields)
  | .interface methods => .interface (methodsAsRead methods)
  | .predeclared name => .predeclared name
termination_by structural type => type

/-- Each parameter with its type as it is read. -/
def parametersAsRead : List Parameter → List Parameter
  | [] => []
  | ⟨name, type⟩ :: rest => ⟨name, type.asRead⟩ :: parametersAsRead rest
termination_by structural params => params

/-- An optional parameter with its type as it is read. -/
def optionAsRead : Option Parameter → Option Parameter
  | none => none
  | some ⟨name, type⟩ => some ⟨name, type.asRead⟩
termination_by structural param => param

/-- Each field with its type as it is read. -/
def fieldsAsRead : List Field → List Field
  | [] => []
  | ⟨name, type⟩ :: rest => ⟨name, type.asRead⟩ :: fieldsAsRead rest
termination_by structural fields => fields

/-- Each method with the types it declares as they are read. -/
def methodsAsRead : List Method → List Method
  | [] => []
  | ⟨name, params, results, variadic⟩ :: rest =>
    ⟨name, parametersAsRead params, parametersAsRead results, optionAsRead variadic⟩ ::
      methodsAsRead rest
termination_by structural methods => methods

end

/-- The parameter with its type as it is read. -/
def Parameter.asRead (p : Parameter) : Parameter := ⟨p.name, p.type.asRead qualifiers localPackage⟩

/-- The field with its type as it is read. -/
def Field.asRead (f : Field) : Field := ⟨f.name, f.type.asRead qualifiers localPackage⟩

/-- The method with the types it declares as they are read. -/
def Method.asRead (m : Method) : Method where
  name := m.name
  params := m.params.map (Parameter.asRead qualifiers localPackage)
  results := m.results.map (Parameter.asRead qualifiers localPackage)
  variadic := m.variadic.map (Parameter.asRead qualifiers localPackage)

@[simp] theorem parametersAsRead_eq_map (params : List Parameter) :
    parametersAsRead qualifiers localPackage params =
      params.map (Parameter.asRead qualifiers localPackage) := by
  induction params with
  | nil => rfl
  | cons p rest ih => cases p; simp [parametersAsRead, Parameter.asRead, ih]

@[simp] theorem optionAsRead_eq_map (param : Option Parameter) :
    optionAsRead qualifiers localPackage param =
      param.map (Parameter.asRead qualifiers localPackage) := by
  cases param with
  | none => rfl
  | some p => cases p; rfl

@[simp] theorem fieldsAsRead_eq_map (fields : List Field) :
    fieldsAsRead qualifiers localPackage fields =
      fields.map (Field.asRead qualifiers localPackage) := by
  induction fields with
  | nil => rfl
  | cons f rest ih => cases f; simp [fieldsAsRead, Field.asRead, ih]

@[simp] theorem methodsAsRead_eq_map (methods : List Method) :
    methodsAsRead qualifiers localPackage methods =
      methods.map (Method.asRead qualifiers localPackage) := by
  induction methods with
  | nil => rfl
  | cons m rest ih => cases m; simp [methodsAsRead, Method.asRead, ih]

end Readings

section Arrows

/-- No bidirectional channel in the type has a channel that only receives for its element. -/
def GoType.ArrowsApart (type : GoType) : Prop :=
  ∀ elem, ¬ Contains (.chan .both (.chan .recv elem)) type

variable {qualifiers : Qualifiers} {localPackage : String}

theorem GoType.behindChan_behindChan (type : GoType) :
    type.behindChan.behindChan = .chan .both type.behindChan := by
  cases type with
  | chan dir elem => cases dir <;> rfl
  | _ => rfl

/-- Only a channel that receives gives up an arrow. -/
theorem GoType.behindChan_asRead {elem : GoType} (h : ∀ inner, elem ≠ .chan .recv inner) :
    (elem.asRead qualifiers localPackage).behindChan =
      .chan .both (elem.asRead qualifiers localPackage) := by
  cases elem with
  | chan dir inner =>
      cases dir with
      | both => exact behindChan_behindChan _
      | recv => exact absurd rfl (h inner)
      | send => rfl
  | _ => rfl

theorem GoType.behindChan_eq_both {type other : GoType}
    (h : type.behindChan = .chan .both other) : type = other := by
  cases type with
  | chan dir elem =>
      cases dir with
      | recv => cases h
      | both | send => exact (GoType.chan.inj h).2
  | _ => exact (GoType.chan.inj h).2

/-- A bidirectional channel of receiving ones is never read as what it is, wherever it stands. -/
theorem GoType.Contains.asRead_ne_outline {type elem : GoType}
    (h : Contains (.chan .both (.chan .recv elem)) type) :
    type.asRead qualifiers localPackage ≠ type.outline qualifiers localPackage := by
  have parameter {p : Parameter} (ih : p.type.asRead qualifiers localPackage ≠
      p.type.outline qualifiers localPackage) :
      p.asRead qualifiers localPackage ≠ p.outline qualifiers localPackage :=
    fun heq => ih (Parameter.mk.inj heq).2
  induction h with
  | whole => exact nofun
  | pointer _ ih => exact fun heq => ih (GoType.pointer.inj heq)
  | array _ ih => exact fun heq => ih (GoType.array.inj heq).2
  | key _ ih => exact fun heq => ih (GoType.map.inj heq).1
  | value _ ih => exact fun heq => ih (GoType.map.inj heq).2
  | @chan dir _ _ ih =>
      intro heq
      cases dir with
      | both => exact ih (behindChan_eq_both heq)
      | recv | send => exact ih (GoType.chan.inj heq).2
  | param hp _ ih =>
      intro heq
      simp only [asRead, outline, parametersAsRead_eq_map, parameterOutlines_eq_map] at heq
      exact parameter ih (List.map_inj_left.1 (GoType.func.inj heq).1 _ hp)
  | result hp _ ih =>
      intro heq
      simp only [asRead, outline, parametersAsRead_eq_map, parameterOutlines_eq_map] at heq
      exact parameter ih (List.map_inj_left.1 (GoType.func.inj heq).2.1 _ hp)
  | variadic hp _ ih =>
      intro heq
      obtain rfl := hp
      simp only [asRead, outline, optionAsRead_eq_map, optionOutline_eq_map, Option.map_some] at heq
      exact parameter ih (Option.some.inj (GoType.func.inj heq).2.2)
  | field hf _ ih =>
      intro heq
      simp only [asRead, outline, fieldsAsRead_eq_map, fieldOutlines_eq_map] at heq
      exact ih (Field.mk.inj (List.map_inj_left.1 (GoType.struct.inj heq) _ hf)).2
  | @method _ m p hm hp _ ih =>
      intro heq
      simp only [asRead, outline, methodsAsRead_eq_map, methodOutlines_eq_map] at heq
      obtain ⟨-, hparams, hresults, hvariadic⟩ :=
        Method.mk.inj (List.map_inj_left.1 (GoType.interface.inj heq) _ hm)
      have hdeclared : ∀ p ∈ m.declared,
          p.asRead qualifiers localPackage = p.outline qualifiers localPackage := by
        refine Method.forall_mem_declared.2 ⟨List.map_inj_left.1 hparams,
          List.map_inj_left.1 hresults, fun p hp => ?_⟩
        rw [Option.mem_def.1 hp] at hvariadic
        exact Option.some.inj hvariadic
      exact parameter ih (hdeclared p hp)

/-- If there is no such channel, every arrow is read where it belongs. -/
theorem GoType.ArrowsApart.asRead_eq_outline {type : GoType} (h : type.ArrowsApart) :
    type.asRead qualifiers localPackage = type.outline qualifiers localPackage := by
  have parameters {params : List Parameter} (ih : ∀ p ∈ params,
      p.type.asRead qualifiers localPackage = p.type.outline qualifiers localPackage) :
      params.map (Parameter.asRead qualifiers localPackage) =
        params.map (Parameter.outline qualifiers localPackage) :=
    List.map_congr_left fun p hp => congrArg (Parameter.mk p.name) (ih p hp)
  have option {param : Option Parameter} (ih : ∀ p ∈ param,
      p.type.asRead qualifiers localPackage = p.type.outline qualifiers localPackage) :
      param.map (Parameter.asRead qualifiers localPackage) =
        param.map (Parameter.outline qualifiers localPackage) :=
    Option.map_congr fun p hp => congrArg (Parameter.mk p.name) (ih p hp)
  induction type using GoType.induct with
  | named | predeclared => rfl
  | pointer elem ih => exact congrArg GoType.pointer (ih fun _ hin => h _ (.pointer hin))
  | array len elem ih => exact congrArg (GoType.array len) (ih fun _ hin => h _ (.array hin))
  | map key value ihkey ihvalue =>
      rw [asRead, ihkey fun _ hin => h _ (.key hin), ihvalue fun _ hin => h _ (.value hin), outline]
  | chan dir elem ih =>
      have helem := ih fun _ hin => h _ (.chan hin)
      cases dir with
      | both =>
          have hne : ∀ inner, elem ≠ .chan .recv inner := by
            rintro inner rfl
            exact h inner .whole
          rw [asRead, behindChan_asRead hne, helem, outline]
      | recv | send => rw [asRead, helem, outline]
  | func params results variadic ihparams ihresults ihvariadic =>
      simp only [asRead, outline, parametersAsRead_eq_map, parameterOutlines_eq_map,
        optionAsRead_eq_map, optionOutline_eq_map]
      rw [parameters fun p hp => ihparams p hp fun _ hin => h _ (.param hp hin),
        parameters fun p hp => ihresults p hp fun _ hin => h _ (.result hp hin),
        option fun p hp => ihvariadic p hp fun _ hin => h _ (.variadic hp hin)]
  | struct fields ih =>
      simp only [asRead, outline, fieldsAsRead_eq_map, fieldOutlines_eq_map]
      exact congrArg GoType.struct (List.map_congr_left fun f hf =>
        congrArg (Field.mk f.name) (ih f hf fun _ hin => h _ (.field hf hin)))
  | interface methods ih =>
      simp only [asRead, outline, methodsAsRead_eq_map, methodOutlines_eq_map]
      refine congrArg GoType.interface (List.map_congr_left fun m hm => ?_)
      obtain ⟨hparams, hresults, hvariadic⟩ := Method.forall_mem_declared.1 fun p hp =>
        ih m hm p hp fun _ hin => h _ (.method hm hp hin)
      rw [Method.asRead, parameters hparams, parameters hresults, option hvariadic, Method.outline]

end Arrows

end InterfaceProbe
