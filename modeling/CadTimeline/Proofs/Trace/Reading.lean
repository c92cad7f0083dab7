import CadTimeline.Proofs.Compile.Plan
import CadTimeline.Proofs.Reading
import CadTimeline.Proofs.Trace.Block

/-!
# Parameters without effect

A parameter that nothing behind its definition refers to has no effect: whatever its value, the
rest of the timeline is read in the same way, and gives the same files.
-/

namespace CadTimeline

open Traced

variable {hidden : String → Prop}

/-! ## Tables -/

/-- The same parameter; of a hidden one, the same name on the same line. -/
structure Parameter.AgreeOff (hidden : String → Prop) (parameter other : Parameter) : Prop where
  name : other.name = parameter.name
  line : other.line = parameter.line
  eq : ¬hidden parameter.name → other = parameter

theorem Parameter.AgreeOff.refl (parameter : Parameter) : parameter.AgreeOff hidden parameter :=
  ⟨rfl, rfl, fun _ => rfl⟩

namespace ParameterTable

/-- The same parameters in the same order, but for the values and expressions of hidden ones. -/
def AgreeOff (hidden : String → Prop) (table other : ParameterTable) : Prop :=
  List.Forall₂ (Parameter.AgreeOff hidden) table.entries other.entries

def traceDefine (table : ParameterTable) (name expression : String) (line : Nat) :
    Traced Issue ParameterTable := do
  lift (checkName name)
  match table.find? name with
  | some earlier => throw (.redefinition name earlier.line)
  | none =>
    let value ← (table.scope .parameters).traceEvaluate expression
    return ⟨table.entries ++ [⟨name, value, expression, line⟩]⟩

namespace AgreeOff

variable {table other : ParameterTable}

theorem refl (table : ParameterTable) : table.AgreeOff hidden table :=
  List.forall₂_same.mpr fun parameter _ => .refl parameter

theorem add (h : table.AgreeOff hidden other) {parameter second : Parameter}
    (hp : parameter.AgreeOff hidden second) :
    AgreeOff hidden ⟨table.entries ++ [parameter]⟩ ⟨other.entries ++ [second]⟩ :=
  List.rel_append h (.cons hp .nil)

/-- The tables bind the same names, on the same lines. -/
theorem find? (h : table.AgreeOff hidden other) (name : String) :
    (table.find? name = none ∧ other.find? name = none) ∨
      ∃ parameter second, table.find? name = some parameter ∧ other.find? name = some second ∧
        parameter.AgreeOff hidden second := by
  unfold ParameterTable.find?
  obtain ⟨entries⟩ := table
  obtain ⟨others⟩ := other
  unfold AgreeOff at h
  dsimp only at h ⊢
  induction h with
  | nil => exact .inl ⟨rfl, rfl⟩
  | @cons parameter second _ _ hp _ ih =>
      rw [List.find?_cons, List.find?_cons, hp.name]
      cases parameter.name == name with
      | true => exact .inr ⟨parameter, second, rfl, rfl, hp⟩
      | false => exact ih

theorem scope (h : table.AgreeOff hidden other) (bareNames : BareNames) :
    (table.scope bareNames).AgreeOff hidden (other.scope bareNames) := by
  refine ⟨rfl, fun name hname => ?_⟩
  change other.get? name = table.get? name
  rw [get?, get?]
  rcases h.find? name with ⟨hnone, hother⟩ | ⟨parameter, second, hfirst, hsecond, hp⟩
  · rw [hnone, hother]
  · have hfound : parameter.name = name := by
      have hbeq := List.find?_some hfirst
      exact beq_iff_eq.mp hbeq
    rw [hfirst, hsecond, hp.eq (hfound ▸ hname)]

theorem define (h : table.AgreeOff hidden other) (name expression : String) (line : Nat) :
    Agrees hidden (AgreeOff hidden) (table.traceDefine name expression line)
      (other.define name expression line) := by
  unfold traceDefine ParameterTable.define
  refine Agrees.lift_bind fun _ => ?_
  rcases h.find? name with ⟨hnone, hother⟩ | ⟨parameter, second, hfirst, hsecond, hp⟩
  · rw [hnone, hother]
    refine ((h.scope .parameters).evaluate expression).bind_eq fun value => ?_
    exact .pure (h.add (.refl _))
  · rw [hfirst, hsecond]
    dsimp only
    rw [hp.line]
    exact .throw _

end AgreeOff

/-- A parameter may be defined by any expression that has a value. -/
theorem alike_define_of_isOk {table : ParameterTable} {first second : String}
    (hfirst : ((table.scope .parameters).evaluate first).isOk = true)
    (hsecond : ((table.scope .parameters).evaluate second).isOk = true) (name : String)
    (line : Nat) :
    Alike Eq (AgreeOff (· = name)) (table.define name first line)
      (table.define name second line) := by
  obtain ⟨x, hx⟩ := exists_of_isOk hfirst
  obtain ⟨y, hy⟩ := exists_of_isOk hsecond
  unfold define
  refine (Alike.of_eq rfl).bind_eq fun _ => ?_
  cases table.find? name with
  | some earlier => exact .error rfl
  | none =>
      change Alike Eq _ ((table.scope .parameters).evaluate first >>= _)
        ((table.scope .parameters).evaluate second >>= _)
      rw [hx, hy]
      exact .ok ((AgreeOff.refl table).add ⟨rfl, rfl, fun hne => absurd rfl hne⟩)

end ParameterTable

/-! ## Readings -/

namespace Reading

/-- The same but for the values and expressions of hidden parameters. -/
structure AgreeOff (hidden : String → Prop) (reading other : Reading) : Prop where
  parameters : reading.parameters.AgreeOff hidden other.parameters
  unit : other.unit = reading.unit
  actions : other.actions = reading.actions
  crossRails : other.crossRails = reading.crossRails
  echoes : other.echoes = reading.echoes

def traceLine (table : ParameterTable) (line : Line) : Traced LineIssue ParameterTable :=
  match line.fields with
  | [name, expression] =>
    (table.traceDefine name.text expression.text line.number).mapError (⟨line.number, ·⟩)
  | fields => throw ⟨line.number, .definitionWidth fields.length⟩

def traceParameters (table : ParameterTable) (block : Block) :
    Traced LineIssue ParameterTable :=
  if block.header.fields.length = 1 then block.body.foldlM traceLine table
  else throw ⟨block.number, .parametersHeader⟩

/-- Reads one more block, with what is evaluated and substituted on the way. -/
def traceStep (reading : Reading) (block : Block) : Traced LineIssue Reading := do
  let here {α : Type} (result : Traced Issue α) := result.mapError (LineIssue.mk block.number)
  match block.keyword with
  | .parameters =>
    return { reading with parameters := ← traceParameters reading.parameters block }
  | .units =>
    lift (checkNoBody block)
    return { reading with unit := ← here (traceUnit reading.scope block.header) }
  | .echo =>
    lift (checkNoBody block)
    let message ← here (traceEcho reading.scope block.header)
    return { reading with echoes := reading.echoes ++ [message] }
  | .crossRails =>
    let rails ← CrossRails.traceBlock reading.scope block
    return { reading with crossRails := reading.crossRails ++ [(rails, reading.unit)] }
  | .action kind =>
    let action ← Action.traceBlock kind reading.scope reading.unit block
    return { reading with actions := reading.actions ++ [action] }

/-- Reads some blocks, with what is evaluated and substituted on the way. -/
def trace (file : String) (reading : Reading) (blocks : List Block) : Traced Complaint Reading :=
  blocks.foldlM (fun reading block =>
    (reading.traceStep block).mapError (LineIssue.inFile file block.label)) reading

namespace AgreeOff

variable {reading other : Reading}

theorem refl (reading : Reading) : reading.AgreeOff hidden reading :=
  ⟨.refl _, rfl, rfl, rfl, rfl⟩

theorem line {table second : ParameterTable} (h : table.AgreeOff hidden second) (line : Line) :
    Agrees hidden (ParameterTable.AgreeOff hidden) (traceLine table line)
      (defineLine second line) := by
  unfold traceLine defineLine
  generalize line.fields = fields
  match fields with
  | [] | [_] | _ :: _ :: _ :: _ => exact .throw _
  | [name, expression] => exact (h.define name.text expression.text line.number).mapError

/-- A block is read in the same way. -/
theorem step (h : reading.AgreeOff hidden other) (block : Block) :
    Agrees hidden (AgreeOff hidden) (reading.traceStep block) (other.step block) := by
  have hscope : reading.scope.AgreeOff hidden other.scope := h.parameters.scope .constantsOnly
  unfold traceStep Reading.step
  cases block.keyword with
  | parameters =>
      refine Agrees.bind (R := ParameterTable.AgreeOff hidden) ?_ fun table second ht => .pure ?_
      · exact .ite (fun _ => .foldlM (fun _ _ line ht => AgreeOff.line ht line) h.parameters)
          fun _ => .throw _
      · exact { h with parameters := ht }
  | units =>
      refine Agrees.lift_bind fun _ => ?_
      refine (hscope.unit block.header).mapError.bind_eq fun unit => .pure ?_
      exact { h with unit := rfl }
  | echo =>
      refine Agrees.lift_bind fun _ => ?_
      refine (hscope.echo block.header).mapError.bind_eq fun message => .pure ?_
      exact { h with echoes := by rw [h.echoes] }
  | crossRails =>
      refine (hscope.crossRails block).bind_eq fun rails => .pure ?_
      exact { h with crossRails := by rw [h.crossRails, h.unit] }
  | action kind =>
      dsimp only
      rw [h.unit]
      refine (hscope.action kind reading.unit block).bind_eq fun action => .pure ?_
      exact { h with unit := rfl, actions := by rw [h.actions] }

/-- So are some blocks, where none of them refers to a hidden name up to the first failure. -/
theorem run (h : reading.AgreeOff hidden other) (file : String) (blocks : List Block) :
    Agrees hidden (AgreeOff hidden) (trace file reading blocks)
      (blocks.foldlM (Analysis.readBlock file) other) :=
  .foldlM (fun _ _ block hr => (hr.step block).mapError) h

end AgreeOff

/-- Where no name is hidden, there is nothing else to agree on. -/
theorem AgreeOff.eq {reading other : Reading} (h : reading.AgreeOff (fun _ => False) other) :
    other = reading := by
  obtain ⟨⟨entries⟩, unit, actions, crossRails, echoes⟩ := reading
  obtain ⟨⟨others⟩, otherUnit, otherActions, otherRails, otherEchoes⟩ := other
  obtain ⟨hparameters, rfl, rfl, rfl, rfl⟩ := h
  have hentries : List.Forall₂ Eq entries others := hparameters.imp fun _ _ hp => (hp.eq id).symm
  rw [List.forall₂_eq_eq_eq] at hentries
  rw [hentries]

/-- A trace is that of the reading itself. -/
theorem result_trace (file : String) (reading : Reading) (blocks : List Block) :
    (trace file reading blocks).result = blocks.foldlM (Analysis.readBlock file) reading := by
  have hself : reading.AgreeOff (fun _ => False) reading := .refl reading
  have hrun := hself.run file blocks fun _ _ _ _ => id
  generalize (trace file reading blocks).result = result at hrun ⊢
  generalize blocks.foldlM (Analysis.readBlock file) reading = other at hrun ⊢
  cases hrun with
  | ok h => rw [h.eq]
  | error h => rw [h]

end Reading

/-! ## A definition in a timeline -/

/-- A place in a list of blocks where a line defines a parameter: what stands before and behind
the line in its block, and the blocks before and behind that. -/
structure Site where
  front : List Block
  header : Line
  before : List Line
  number : Nat
  name : Field
  after : List Line
  rest : List Block

namespace Site

variable (site : Site)

/-- The blocks with the definition of the parameter by an expression. -/
def blocks (expression : Field) : List Block :=
  site.front ++
    ⟨.parameters, site.header,
      site.before ++ ⟨site.number, [site.name, expression]⟩ :: site.after⟩ :: site.rest

/-- What stands before the definition. -/
def earlier : List Block :=
  site.front ++ [⟨.parameters, site.header, site.before⟩]

/-- The definition alone. -/
def definition (expression : Field) : Block :=
  ⟨.parameters, site.header, [⟨site.number, [site.name, expression]⟩]⟩

/-- What stands behind the definition, the rest of its block first. -/
def later : List Block :=
  ⟨.parameters, site.header, site.after⟩ :: site.rest

end Site

namespace Analysis

/-- A block of parameters may be cut in two with the same header. -/
theorem readBlock_append (file : String) (reading : Reading) (header : Line)
    (before after : List Line) :
    readBlock file reading ⟨.parameters, header, before ++ after⟩ =
      readBlock file reading ⟨.parameters, header, before⟩ >>= fun next =>
        readBlock file next ⟨.parameters, header, after⟩ := by
  unfold readBlock Reading.step Reading.readParameters
  dsimp only
  by_cases hheader : header.fields.length = 1
  · simp only [if_pos hheader, List.foldlM_append]
    cases before.foldlM Reading.defineLine reading.parameters <;> rfl
  · simp only [if_neg hheader]
    rfl

/-- A timeline is read up to the definition, then the definition, then what stands behind. -/
theorem foldlM_blocks (file : String) (reading : Reading) (site : Site) (expression : Field) :
    (site.blocks expression).foldlM (readBlock file) reading =
      site.earlier.foldlM (readBlock file) reading >>= fun here =>
        readBlock file here (site.definition expression) >>= fun next =>
          site.later.foldlM (readBlock file) next := by
  unfold Site.blocks Site.earlier Site.later Site.definition
  rw [List.append_cons site.before]
  simp only [List.foldlM_append, List.foldlM_cons, List.foldlM_nil, readBlock_append file,
    bind_assoc, bind_pure]

/-- The same analysis, but for the values and expressions of hidden parameters. -/
structure AgreeOff (hidden : String → Prop) (analysis other : Analysis) : Prop where
  file : other.file = analysis.file
  parameters : analysis.parameters.AgreeOff hidden other.parameters
  actions : other.actions = analysis.actions
  crossRails : other.crossRails = analysis.crossRails
  echoes : other.echoes = analysis.echoes

/-- The files of a timeline do not depend on its parameters. -/
theorem AgreeOff.plan_eq {analysis other : Analysis} (h : analysis.AgreeOff hidden other)
    (root : Path) : other.plan root = analysis.plan root := by
  obtain ⟨file, parameters, actions, crossRails, echoes⟩ := analysis
  obtain ⟨_, others, _, _, _⟩ := other
  obtain ⟨rfl, -, rfl, rfl, rfl⟩ := h
  rfl

/-- A definition alone is read alike with two expressions that have values. -/
theorem alike_definition {file : String} {here : Reading} {site : Site} {first second : Field}
    (hfirst : ((here.parameters.scope .parameters).evaluate first.text).isOk = true)
    (hsecond : ((here.parameters.scope .parameters).evaluate second.text).isOk = true) :
    Alike Eq (Reading.AgreeOff (· = site.name.text))
      (readBlock file here (site.definition first))
      (readBlock file here (site.definition second)) := by
  have hdefine := ParameterTable.alike_define_of_isOk hfirst hsecond site.name.text site.number
  have hline : Alike Eq (ParameterTable.AgreeOff (· = site.name.text))
      (Reading.readParameters here.parameters (site.definition first))
      (Reading.readParameters here.parameters (site.definition second)) := by
    refine Alike.ite (fun _ => ?_) fun _ => .error rfl
    unfold Site.definition
    rw [List.foldlM_cons, List.foldlM_cons]
    exact (hdefine.mapError fun _ _ he => congrArg _ he).bind fun _ _ ht => .ok ht
  refine Alike.mapError ?_ fun _ _ he => congrArg _ he
  exact hline.bind fun _ _ ht => .ok ⟨ht, rfl, rfl, rfl, rfl⟩

/-- A parameter that is referred to nowhere behind its definition has no effect. Of two
timelines that differ only in the expression that defines it, and in which both expressions
have values, both are refused with the same complaint or neither is: then they have the same
actions, cross rails, echoes and other parameters, and the same files with the same texts.
References are those of all that is evaluated or substituted behind the definition, up to the
first failure. -/
theorem ofBlocks_of_unreferenced (site : Site) (first second : Field) (file : String)
    (unit : LengthUnit)
    (hvalues : ∀ here, Reading.Reads file (Reading.start unit) site.earlier here →
      ((here.parameters.scope .parameters).evaluate first.text).isOk = true ∧
        ((here.parameters.scope .parameters).evaluate second.text).isOk = true)
    (hunused : ∀ next,
      Reading.Reads file (Reading.start unit) (site.earlier ++ [site.definition first]) next →
        ∀ use ∈ (Reading.trace file next site.later).uses, site.name.text ∉ use.names) :
    Alike Eq
      (fun analysis other => analysis.AgreeOff (· = site.name.text) other ∧
        ∀ root, other.plan root = analysis.plan root)
      (ofBlocks file unit (site.blocks first)) (ofBlocks file unit (site.blocks second)) := by
  unfold ofBlocks
  rw [foldlM_blocks, foldlM_blocks]
  refine Alike.map (R := Reading.AgreeOff (· = site.name.text)) ?_ fun reading other h => ?_
  · refine (Alike.of_eq rfl).bind_of_ok fun here _ hhere _ hsame => ?_
    subst hsame
    obtain ⟨hfirst, hsecond⟩ := hvalues here hhere
    refine (alike_definition hfirst hsecond).bind_of_ok fun next other hnext _ h => ?_
    have hreads : Reading.Reads file (Reading.start unit)
        (site.earlier ++ [site.definition first]) next :=
      Reading.Reads.append.mpr ⟨here, hhere,
        Reading.Reads.cons.mpr ⟨next, Reading.readBlock_eq_ok.mp hnext, rfl⟩⟩
    have hrun := h.run file site.later fun use huse name hname heq =>
      hunused next hreads use huse (heq ▸ hname)
    rwa [Reading.result_trace] at hrun
  · have hagree : (reading.finish file).AgreeOff (· = site.name.text) (other.finish file) :=
      ⟨rfl, h.parameters, h.actions, h.crossRails, h.echoes⟩
    exact ⟨hagree, hagree.plan_eq⟩

/-- A parameter `p` between two others, before a sketch that has its name but no reference
to it. -/
def spareSite : Site where
  front := [⟨.units, ⟨1, [⟨"units", false⟩, ⟨"cm", false⟩]⟩, []⟩]
  header := ⟨2, [⟨"parameters", false⟩]⟩
  before := [⟨3, [⟨"a", false⟩, ⟨"2", false⟩]⟩]
  number := 4
  name := ⟨"p", false⟩
  after := [⟨5, [⟨"q", false⟩, ⟨"3 / a", false⟩]⟩]
  rest := [⟨.action .sketch, ⟨6, [⟨"sketch", false⟩, ⟨"s$a", false⟩, ⟨"p", false⟩]⟩,
    [⟨7, [⟨"offset_plane", false⟩, ⟨"z", false⟩, ⟨"$q", false⟩]⟩, ⟨8, [⟨"line", false⟩]⟩,
      ⟨9, [⟨"0", false⟩, ⟨"0", false⟩]⟩, ⟨10, [⟨"1", false⟩, ⟨"$a", false⟩]⟩]⟩]

theorem exists_ofBlocks_spareSite : ∃ analysis other,
    ofBlocks "t.txt" .mm (spareSite.blocks ⟨"4", false⟩) = .ok analysis ∧
      ofBlocks "t.txt" .mm (spareSite.blocks ⟨"a * a - 0.5", true⟩) = .ok other ∧
      analysis.AgreeOff (· = "p") other ∧ other.plan ⟨"out"⟩ = analysis.plan ⟨"out"⟩ := by
  have hvalues : (spareSite.earlier.foldlM (readBlock "t.txt")
      (Reading.start .mm)).toOption.all (fun here =>
        ((here.parameters.scope .parameters).evaluate "4").isOk &&
          ((here.parameters.scope .parameters).evaluate "a * a - 0.5").isOk) = true := by
    decide +kernel
  have hunused : ((spareSite.earlier ++ [spareSite.definition ⟨"4", false⟩]).foldlM
      (readBlock "t.txt") (Reading.start .mm)).toOption.all (fun next =>
        (Reading.trace "t.txt" next spareSite.later).uses.all fun use =>
          !use.names.contains spareSite.name.text) = true := by
    decide +kernel
  have hok : (ofBlocks "t.txt" .mm (spareSite.blocks ⟨"4", false⟩)).isOk = true := by
    decide +kernel
  obtain ⟨analysis, hanalysis⟩ := exists_of_isOk hok
  have halike := ofBlocks_of_unreferenced spareSite ⟨"4", false⟩ ⟨"a * a - 0.5", true⟩ "t.txt" .mm
    (fun here hhere => Bool.and_eq_true_iff.mp (of_toOption_all hvalues hhere))
    fun next hnext use huse hname => by
      have hall := List.all_eq_true.mp (of_toOption_all hunused hnext) use huse
      rw [List.contains_iff_mem.mpr hname] at hall
      contradiction
  generalize hother : ofBlocks "t.txt" .mm (spareSite.blocks ⟨"a * a - 0.5", true⟩) = result
    at halike
  rw [hanalysis] at halike
  obtain ⟨hagree, hplan⟩ | _ := halike
  exact ⟨analysis, _, hanalysis, rfl, hagree, hplan ⟨"out"⟩⟩

end Analysis

end CadTimeline
