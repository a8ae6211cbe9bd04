import Conform.Proofs.Resolver.Run

/-!
What an expression is, read off its text alone: the parts that have to be resolved for it, or why it
is no type. A resolution does what the form of its expression says.
-/

namespace Conform

inductive Form where
  | group (connective : Connective) (operands : List (List Char))
  | array (element : List Char)
  | primitive (kind : Primitive)
  | partialOf (name : List Char)
  | record (parts : Expr.RecordParts)
  | reference (name : List Char)

namespace Form

def ofTokens (expr : List Char) (tokens : List Expr.Token) : Except Fault Form :=
  match Resolve.operators tokens with
  | [] => .error (.invalidExpression (String.ofList expr))
  | connective :: others =>
    if others.all (· == connective) then .ok (.group connective (Resolve.operands tokens))
    else .error (.mixedConnectives (String.ofList expr))

def ofShape (expr : List Char) : Expr.Shape → Except Fault Form
  | .group => (Expr.tokens expr).bind fun tokens => ofTokens expr (Expr.mergeAnds tokens)
  | .array element => .ok (.array element)
  | .primitive kind => .ok (.primitive kind)
  | .partialOf name => .ok (.partialOf name)
  | .record =>
    match Expr.recordParts? expr with
    | none => .error (.invalidExpression (String.ofList expr))
    | some parts => .ok (.record parts)
  | .reference => .ok (.reference expr)

def ofBare (expr : List Char) : Except Fault Form :=
  (Expr.shape expr).bind (ofShape expr)

def read (expr : List Char) : Except Fault Form :=
  ofBare (Expr.bare (Text.stripComments expr))

end Form

theorem Expr.shape_error {expr : List Char} {fault : Fault} (error : Expr.shape expr = .error fault)
    (name : String) : fault ≠ .recursiveAlias name := by
  unfold Expr.shape at error
  repeat' split at error
  all_goals cases error
  all_goals simp

theorem Expr.tokens_error {expr : List Char} {fault : Fault}
    (error : Expr.tokens expr = .error fault) (name : String) : fault ≠ .recursiveAlias name := by
  unfold Expr.tokens at error
  split at error
  · cases error
    simp
  · dsimp only at error
    split at error
    · cases error
      simp
    · cases error

theorem Form.ofTokens_error {expr : List Char} {tokens : List Expr.Token} {fault : Fault}
    (error : ofTokens expr tokens = .error fault) (name : String) :
    fault ≠ .recursiveAlias name := by
  unfold ofTokens at error
  split at error
  · cases error
    simp
  · split at error
    · cases error
    · cases error
      simp

theorem Form.read_error {expr : List Char} {fault : Fault} (error : read expr = .error fault)
    (name : String) : fault ≠ .recursiveAlias name := by
  unfold read ofBare at error
  generalize Expr.bare (Text.stripComments expr) = bare at error
  cases shape : Expr.shape bare with
  | error other =>
      rw [shape] at error
      cases error
      exact Expr.shape_error shape name
  | ok found =>
      rw [shape] at error
      change ofShape bare found = .error fault at error
      unfold ofShape at error
      split at error
      · cases tokens : Expr.tokens bare with
        | error other =>
            rw [tokens] at error
            cases error
            exact Expr.tokens_error tokens name
        | ok known =>
            rw [tokens] at error
            exact ofTokens_error error name
      · cases error
      · cases error
      · cases error
      · split at error
        · cases error
          simp
        · cases error
      · cases error

inductive Use where
  | operand
  /-- As the type of a field, an element or an index signature. -/
  | nested
  /-- As a parent or the target of a `Partial`. -/
  | atOnce
deriving DecidableEq

namespace Expr.Member

def type : Member → List Char
  | field _ _ type => type
  | index type => type

end Expr.Member

inductive Piece : Use → List Char → List Char → Prop where
  | operand {expr operand : List Char} {connective : Connective} {operands : List (List Char)}
      (form : Form.read expr = .ok (.group connective operands)) (member : operand ∈ operands) :
      Piece .operand expr operand
  | element {expr element : List Char} (form : Form.read expr = .ok (.array element)) :
      Piece .nested expr element
  | member {expr member : List Char} {parts : Expr.RecordParts} {found : Expr.Member}
      (form : Form.read expr = .ok (.record parts)) (among : member ∈ Expr.members parts.body)
      (read : Expr.member? member = some found) : Piece .nested expr found.type
  | target {expr name : List Char} (form : Form.read expr = .ok (.partialOf name)) :
      Piece .atOnce expr name
  | parent {expr name : List Char} {parts : Expr.RecordParts}
      (form : Form.read expr = .ok (.record parts)) (extends_ : parts.parent = some name) :
      Piece .atOnce expr name

namespace Form

def pieces : Form → List (Use × List Char)
  | .group _ operands => operands.map (.operand, ·)
  | .array element => [(.nested, element)]
  | .partialOf name => [(.atOnce, name)]
  | .record parts =>
    parts.parent.toList.map (.atOnce, ·) ++
      (Expr.members parts.body).filterMap fun member =>
        (Expr.member? member).map fun found => (.nested, found.type)
  | .primitive _ => []
  | .reference _ => []

theorem mem_pieces {expr part : List Char} {use : Use} {form : Form} (read : Form.read expr = .ok form)
    (piece : Piece use expr part) : (use, part) ∈ form.pieces := by
  cases piece with
  | operand form' member =>
      cases read.symm.trans form'
      simpa [pieces] using member
  | element form' =>
      cases read.symm.trans form'
      simp [pieces]
  | @member _ member _ found form' among read' =>
      cases read.symm.trans form'
      refine List.mem_append_right _ (List.mem_filterMap.mpr ⟨member, among, ?_⟩)
      simp [read']
  | target form' =>
      cases read.symm.trans form'
      simp [pieces]
  | parent form' extends_ =>
      cases read.symm.trans form'
      simp [pieces, extends_]

end Form

namespace Piece

variable {use : Use} {expr part : List Char}

theorem of_group {connective : Connective} {operands : List (List Char)}
    (piece : Piece use expr part) (read : Form.read expr = .ok (.group connective operands)) :
    use = .operand ∧ part ∈ operands := by
  obtain ⟨_, member, same⟩ := List.mem_map.mp (Form.mem_pieces read piece)
  cases same
  exact ⟨rfl, member⟩

theorem of_array {element : List Char} (piece : Piece use expr part)
    (read : Form.read expr = .ok (.array element)) : use = .nested ∧ part = element := by
  simpa [Form.pieces] using Form.mem_pieces read piece

theorem of_partialOf {name : List Char} (piece : Piece use expr part)
    (read : Form.read expr = .ok (.partialOf name)) : use = .atOnce ∧ part = name := by
  simpa [Form.pieces] using Form.mem_pieces read piece

theorem of_record {parts : Expr.RecordParts} (piece : Piece use expr part)
    (read : Form.read expr = .ok (.record parts)) :
    (use = .atOnce ∧ parts.parent = some part) ∨
      use = .nested ∧ ∃ member ∈ Expr.members parts.body, ∃ found,
        Expr.member? member = some found ∧ found.type = part := by
  rcases List.mem_append.mp (Form.mem_pieces read piece) with inherited | inside
  · obtain ⟨_, extends_, same⟩ := List.mem_map.mp inherited
    cases same
    exact .inl ⟨rfl, Option.mem_toList.mp extends_⟩
  · obtain ⟨member, among, known⟩ := List.mem_filterMap.mp inside
    obtain ⟨found, read', same⟩ := Option.map_eq_some_iff.mp known
    cases same
    exact .inr ⟨rfl, member, among, found, read', rfl⟩

theorem no_primitive (piece : Piece use expr part) (kind : Primitive) :
    Form.read expr ≠ .ok (.primitive kind) := by
  intro read
  simpa [Form.pieces] using Form.mem_pieces read piece

theorem no_reference (piece : Piece use expr part) (name : List Char) :
    Form.read expr ≠ .ok (.reference name) := by
  intro read
  simpa [Form.pieces] using Form.mem_pieces read piece

end Piece

def Site.toward (site : Site) : Use → Site
  | .nested => { site with depth := site.depth + 1 }
  | _ => site

namespace Resolve

variable {below : Below} {site : Site}

def resolveParts (below : Below) (site : Site) (parts : Expr.RecordParts) : Resolve Validator := do
  let ancestors ← resolveParent below site parts
  let (fields, index) ← resolveMembers below site (Expr.members parts.body)
  return .record ⟨← freshId, parts.name.map String.ofList, fields, index⟩ ancestors

def resolveForm (below : Below) (site : Site) : Form → Resolve Validator
  | .group connective operands => do
    let validators ← resolveEach below site operands
    return .group (← freshId) connective validators
  | .array element => do return .array (← freshId) (← resolveNested below site element)
  | .primitive kind => return .primitive kind
  | .partialOf name => resolvePartial below site name
  | .record parts => resolveParts below site parts
  | .reference name => resolveName below site name

theorem resolveStep_eq (below : Below) (site : Site) (expr : List Char) :
    resolveStep below site expr = (do resolveForm below site (← ofExcept (Form.read expr))) := by
  simp only [resolveStep, Form.read, Form.ofBare]
  generalize Expr.bare (Text.stripComments expr) = bare
  cases Expr.shape bare with
  | error fault => rfl
  | ok shape =>
      change _ = ofExcept (Form.ofShape bare shape) >>= resolveForm below site
      cases shape with
      | group =>
          change resolveGroup below site bare = _
          simp only [resolveGroup, Form.ofShape]
          cases Expr.tokens bare with
          | error fault => rfl
          | ok tokens =>
              change _ = ofExcept (Form.ofTokens bare (Expr.mergeAnds tokens)) >>= _
              simp only [ofExcept_ok_bind, Form.ofTokens]
              cases operators (Expr.mergeAnds tokens) with
              | nil => rfl
              | cons connective others =>
                  by_cases uniform : others.all (· == connective)
                  · simp only [uniform, if_true]
                    rfl
                  · simp only [uniform]
                    rfl
      | record =>
          change resolveRecord below site bare = _
          simp only [resolveRecord, Form.ofShape]
          cases Expr.recordParts? bare <;> rfl
      | _ => rfl

end Resolve

end Conform
