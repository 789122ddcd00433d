import Downlevel.Proofs.Grammar.Region

/-!
# What is opened is closed

Scopes, contexts and types are entered and left in different parts of the
grammar, with early ends and speculation in between.  Still every routine of the
grammar that goes through leaves them as it found them, in whatever state it is
run; only the parameters of an arrow function leave a scope open, which its body
closes.  Nothing is ever closed that is not open.
-/

set_option synthInstance.maxSize 1000000000

namespace Downlevel.Grammar

open Grammar.Parser

/-- The routines of the grammar. -/
inductive Routine where
  /-- A rule, run by its name. -/
  | rule (rule : Rule)
  -- types
  | templateType
  | balanced
  | angleBrackets
  | qualifiedTail
  | typeSuffix
  | typeOperand
  | typeRule (conditional : Bool)
  | typeAfterColon
  | maybeTypeAfterColon
  | maybeReturnType
  | typeArguments
  | maybeTypeParameters
  | callTypeArguments
  | typeAlias
  | interface
  -- bindings
  | bindingElement (role : Role) (modifiers : Bool)
  | bindingList (close : Kind) (role : Role) (holes modifiers : Bool)
  | propertyBinding (role : Role)
  | binding (role : Role)
  -- functions
  | statements
  | functionBody
  | parameters (modifiers : Bool)
  | signatureAndBody (start : Nat) (modifiers : Bool)
  | method (start : Option Nat) (modifiers : Bool)
  | function (isStatement isAsync : Bool)
  | arrowParameters
  | arrowBody
  | simpleArrow
  | genericArrow
  | asyncArrowHead
  -- classes
  | modifiers
  | memberName
  | field
  | namedMember (start : Nat)
  | classMember
  | maybeClassName (isStatement : Bool)
  | classHeritage
  | classRule (isStatement : Bool)
  -- elements
  | tagName
  | elementName
  | tagAttribute
  | childExpression
  | children
  | closingTag (name : Text) (after : Lexer.Mode)
  | namedElement (after : Lexer.Mode)
  | element (after : Lexer.Mode)
  -- expressions
  | expression (noIn : Bool)
  | propertyName
  | arguments
  | index
  | optionalMember
  | template
  | subscripts (noCall : Bool)
  | objectKey (id : Nat) (hasModifier : Bool)
  | objectMember (id : Nat)
  | object
  | array
  | plainName
  | nameOperand
  | parenthesized
  | angled
  | importExpression
  | operand
  | newExpression
  | suffixed
  | unary
  | assertedType
  | operators (noIn : Bool)
  | conditional (noIn : Bool)
  | assignment (noIn : Bool)
  -- imports and exports
  | moduleSource
  | plainImportSpecifier
  | importSpecifier
  | importedNames
  | importDeclaration
  | importRule
  | exportName
  | exportSpecifier
  | exportList
  | exportAll
  | exportedTypeList
  | typeExport
  | exportDefault
  | exported
  | markTypeExport (index : Nat)
  | exportRule
  -- statements
  | expressionStatement
  | parenExpression
  | block
  | declarations (role : Role) (noIn : Bool)
  | variableStatement (role : Role)
  | forInit
  | forStatement
  | tryStatement
  | switchStatement
  | ifStatement
  | doStatement
  | returnStatement
  | jumpStatement
  | enumDeclaration
  | namespaceDeclaration
  | constStatement
  | typedNameStatement (after : Token)
  | nameStatement
  | statement
  | program

namespace Routine

/-- What a routine runs; the rules it refers to are those of the grammar. -/
def parser : Routine → Parser Unit
  | .rule r => run r
  | .templateType => Grammar.templateType run
  | .balanced => Grammar.balanced run
  | .angleBrackets => Grammar.angleBrackets run
  | .qualifiedTail => Grammar.qualifiedTail run
  | .typeSuffix => Grammar.typeSuffix run
  | .typeOperand => Grammar.typeOperand run
  | .typeRule b => Grammar.typeRule run b
  | .typeAfterColon => Grammar.typeAnnotation run
  | .maybeTypeAfterColon => Grammar.maybeAnnotation run
  | .maybeReturnType => Grammar.maybeReturnType run
  | .typeArguments => Grammar.typeArguments run
  | .maybeTypeParameters => Grammar.maybeTypeParameters run
  | .callTypeArguments => discard (Grammar.callTypeArguments run)
  | .typeAlias => Grammar.typeAlias run
  | .interface => Grammar.interface run
  | .bindingElement role b => discard (Grammar.bindingElement run role b)
  | .bindingList close role holes b => Grammar.bindingList run close role holes b
  | .propertyBinding role => Grammar.propertyBinding run role
  | .binding role => Grammar.binding run role
  | .statements => Grammar.statements run
  | .functionBody => Grammar.functionBody run
  | .parameters b => Grammar.parameters run b
  | .signatureAndBody start b => Grammar.signatureAndBody run start b
  | .method start b => Grammar.method run start b
  | .function isStatement isAsync => Grammar.function run isStatement isAsync
  | .arrowParameters => Grammar.arrowParameters run
  | .arrowBody => Grammar.arrowBody run
  | .simpleArrow => Grammar.simpleArrow run
  | .genericArrow => Grammar.genericArrow run
  | .asyncArrowHead => Grammar.asyncArrowHead run
  | .modifiers => discard Grammar.modifiers
  | .memberName => Grammar.memberName run
  | .field => Grammar.field run
  | .namedMember start => Grammar.namedMember run start
  | .classMember => Grammar.classMember run
  | .maybeClassName isStatement => Grammar.maybeClassName isStatement
  | .classHeritage => Grammar.classHeritage run
  | .classRule isStatement => Grammar.classRule run isStatement
  | .tagName => Grammar.tagName
  | .elementName => Grammar.elementName
  | .tagAttribute => Grammar.tagAttribute run
  | .childExpression => Grammar.childExpression run
  | .children => Grammar.children run
  | .closingTag name after => Grammar.closingTag name after
  | .namedElement after => Grammar.namedElement run after
  | .element after => Grammar.element run after
  | .expression noIn => Grammar.expression run noIn
  | .propertyName => Grammar.propertyName
  | .arguments => Grammar.arguments run
  | .index => Grammar.index run
  | .optionalMember => Grammar.optionalMember run
  | .template => Grammar.template run
  | .subscripts noCall => Grammar.subscripts run noCall
  | .objectKey id hasModifier => discard (Grammar.objectKey run id hasModifier)
  | .objectMember id => Grammar.objectMember run id
  | .object => Grammar.object run
  | .array => Grammar.array run
  | .plainName => discard (Grammar.plainName run)
  | .nameOperand => discard (Grammar.nameOperand run)
  | .parenthesized => discard (Grammar.parenthesized run)
  | .angled => discard (Grammar.angled run)
  | .importExpression => Grammar.importExpression run
  | .operand => discard (Grammar.operand run)
  | .newExpression => Grammar.newExpression run
  | .suffixed => Grammar.suffixed run
  | .unary => Grammar.unary run
  | .assertedType => Grammar.assertedType run
  | .operators noIn => Grammar.operators run noIn
  | .conditional noIn => Grammar.conditional run noIn
  | .assignment noIn => Grammar.assignment run noIn
  | .moduleSource => Grammar.moduleSource
  | .plainImportSpecifier => Grammar.plainImportSpecifier
  | .importSpecifier => Grammar.importSpecifier
  | .importedNames => Grammar.importedNames
  | .importDeclaration => Grammar.importDeclaration
  | .importRule => Grammar.importRule
  | .exportName => Grammar.exportName
  | .exportSpecifier => Grammar.exportSpecifier
  | .exportList => Grammar.exportList
  | .exportAll => Grammar.exportAll
  | .exportedTypeList => Grammar.exportedTypeList run
  | .typeExport => Grammar.typeExport run
  | .exportDefault => Grammar.exportDefault run
  | .exported => Grammar.exported run
  | .markTypeExport i => Grammar.markTypeExport i
  | .exportRule => Grammar.exportRule run
  | .expressionStatement => Grammar.expressionStatement run
  | .parenExpression => Grammar.parenExpression run
  | .block => Grammar.block run
  | .declarations role noIn => Grammar.declarations run role noIn
  | .variableStatement role => Grammar.variableStatement run role
  | .forInit => Grammar.forInit run
  | .forStatement => Grammar.forStatement run
  | .tryStatement => Grammar.tryStatement run
  | .switchStatement => Grammar.switchStatement run
  | .ifStatement => Grammar.ifStatement run
  | .doStatement => Grammar.doStatement run
  | .returnStatement => Grammar.returnStatement run
  | .jumpStatement => Grammar.jumpStatement
  | .enumDeclaration => Grammar.enumDeclaration run
  | .namespaceDeclaration => Grammar.namespaceDeclaration run
  | .constStatement => Grammar.constStatement run
  | .typedNameStatement after => Grammar.typedNameStatement run after
  | .nameStatement => Grammar.nameStatement run
  | .statement => Grammar.statement run
  | .program => Grammar.program

/-- The scopes that are open after a routine, by those that were open before it. -/
def depthAfter : Routine → Nat → Nat
  | .arrowParameters, depth | .asyncArrowHead, depth => depth + 1
  | .arrowBody, depth => depth - 1
  | _, depth => depth

end Routine

/-- Every routine leads to the region that its name promises. -/
theorem Routine.leads (g : Region) (r : Routine) (hr : r ≠ .arrowBody) :
    Leads r.parser g fun _ => { g with depth := r.depthAfter g.depth } := by
  cases r
  case arrowBody => exact absurd rfl hr
  case arrowParameters => exact inferInstanceAs (Leads (Grammar.arrowParameters run) g fun _ => g.deeper)
  case asyncArrowHead => exact inferInstanceAs (Leads (Grammar.asyncArrowHead run) g fun _ => g.deeper)
  all_goals
    dsimp only [Routine.parser, Routine.depthAfter]
    infer_instance

/-- Around a whole program nothing is open. -/
theorem region_initial {source : Text} {st : State} (h : State.initial source = .ok st) :
    st.region = { isType := false, depth := 0, contexts := [] } := by
  obtain ⟨_, _, -, rfl⟩ := State.exists_of_initial h
  rfl

/-- **What is opened is closed.**  A routine of the grammar that goes through, in
whatever state it is run, leaves types, contexts and scopes as they were, but for
the parameters of an arrow function, which leave one scope open, and the body of
an arrow function, which closes one.  A routine that fails has closed nothing that
was not open; the body of an arrow function needs an open scope for that.  So a
program that is parsed ends with nothing open. -/
theorem routines_close_what_they_open :
    (∀ (c : Setting) (st : State) (r : Routine), (r = .arrowBody → 0 < st.depth) →
      match r.parser c st with
      | .ok _ st' => st'.isType = st.isType ∧ st'.contexts = st.contexts
          ∧ st'.depth = r.depthAfter st.depth
      | .error e _ => e ≠ .invariant .scopeUnderflow ∧ e ≠ .invariant .contextUnderflow
          ∧ e ≠ .invariant .classContextUnderflow)
    ∧ ∀ (source : Text) (o : Options) (st st' : State) (a : Unit),
      State.initial source = .ok st → program (Setting.ofOptions source o) st = .ok a st' →
        st'.isType = false ∧ st'.contexts = [] ∧ st'.depth = 0 := by
  constructor
  · intro c st r hbody
    have hleads : Leads r.parser st.region fun _ =>
        { st.region with depth := r.depthAfter st.depth } := by
      by_cases hr : r = .arrowBody
      · subst hr
        have harrow (g : Region) : Leads (arrowBody run) g.deeper fun _ => g := inferInstance
        have hdeeper : Region.deeper { st.region with depth := st.depth - 1 } = st.region :=
          congrArg (fun depth => { st.region with depth }) (Nat.sub_add_cancel (hbody rfl))
        rw [← hdeeper]
        exact harrow _
      · exact r.leads st.region hr
    have hends := hleads.leads c st rfl
    cases hrun : r.parser c st with
    | ok a st' =>
      rw [hrun] at hends
      exact ⟨congrArg Region.isType hends, congrArg Region.contexts hends,
        congrArg Region.depth hends⟩
    | error e st' =>
      rw [hrun] at hends
      refine ⟨?_, ?_, ?_⟩ <;> rintro rfl <;> cases hends
  · intro source o st st' a hinitial hrun
    have hprogram : Leads program st.region fun _ => st.region := inferInstance
    have hends := hprogram.leads (Setting.ofOptions source o) st rfl
    rw [hrun] at hends
    rw [region_initial hinitial] at hends
    exact ⟨congrArg Region.isType hends, congrArg Region.contexts hends,
      congrArg Region.depth hends⟩

/-- The state in front of the arrow of an arrow function, inside its scope. -/
def arrowState : State :=
  { pos := 2, tokens := #[], cur := { kind := .arrow, start := 0, stop := 2 }, isType := false,
    depth := 1, nextContext := 1, contexts := [] }

/-- The body of an arrow function closes the one scope that is open. -/
theorem arrowBody_arrowState :
    ∃ st', Routine.arrowBody.parser { source := "=>1".toList } arrowState = .ok () st'
      ∧ st'.isType = false ∧ st'.contexts = [] ∧ st'.depth = 0 := by
  have hok : (match Routine.arrowBody.parser { source := "=>1".toList } arrowState with
      | .ok _ _ => true
      | .error _ _ => false) = true := by decide +kernel
  have hclose := routines_close_what_they_open.1 { source := "=>1".toList } arrowState .arrowBody
    fun _ => by decide
  cases hrun : Routine.arrowBody.parser { source := "=>1".toList } arrowState with
  | error e st' =>
    rw [hrun] at hok
    cases hok
  | ok a st' =>
    rw [hrun] at hclose
    exact ⟨st', rfl, hclose⟩

end Downlevel.Grammar
