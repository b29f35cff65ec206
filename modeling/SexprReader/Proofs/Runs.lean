import SexprReader.Program

/-!
# How readers run

What a reader does from a cursor, as equations.  A bind runs its second reader where the first one
stopped, or hands on the fault (`bind_of_ok`, `bind_of_error`, `bind_eq_ok_iff`).  `peek`,
`advance`, `atom` and `close` depend on the next node alone, and an expression is a list if the next
node opens one, and else an atom (`exprOf_of_open`, `exprOf_of_not_open`).  A program that is read
is what its reader gives by the settings that the options stand for (`Program.read_eq_ok_iff`).
-/

namespace SexprReader

theorem eq_ok_of_toOption {ε α : Type} {result : Except ε α} {a : α}
    (h : result.toOption = some a) : result = .ok a := by
  cases result with
  | ok b =>
    cases h
    rfl
  | error fault => cases h

/-- The fault of the grammar that a result is, if it is one. -/
def grammarFault? {α : Type} : Except ReadFault α → Option GrammarFault
  | .error (.grammar cause) => some cause
  | _ => none

theorem eq_error_of_grammarFault? {α : Type} {result : Except ReadFault α} {cause : GrammarFault}
    (h : grammarFault? result = some cause) : result = .error (.grammar cause) := by
  unfold grammarFault? at h
  split at h <;> cases h
  rfl

namespace Reader

variable {α β : Type}

/-! ### Binds -/

theorem bind_of_ok {first : Reader α} {next : α → Reader β} {cursor later : Cursor} {a : α}
    (h : first cursor = .ok a later) : (first >>= next) cursor = next a later := by
  simp only [bind, EStateM.bind, h]

theorem bind_of_error {first : Reader α} {next : α → Reader β} {cursor later : Cursor}
    {fault : ReadFault} (h : first cursor = .error fault later) :
    (first >>= next) cursor = .error fault later := by
  simp only [bind, EStateM.bind, h]

theorem bind_eq_ok_iff {first : Reader α} {next : α → Reader β} {cursor last : Cursor} {b : β} :
    (first >>= next) cursor = .ok b last ↔
      ∃ a later, first cursor = .ok a later ∧ next a later = .ok b last := by
  constructor
  · intro h
    cases hf : first cursor with
    | ok a later =>
      rw [bind_of_ok hf] at h
      exact ⟨a, later, rfl, h⟩
    | error fault later =>
      rw [bind_of_error hf] at h
      cases h
  · rintro ⟨a, later, hf, hn⟩
    rw [bind_of_ok hf, hn]

theorem bind_congr_left {first first' : Reader α} {cursor : Cursor}
    (h : first cursor = first' cursor) (next : α → Reader β) :
    (first >>= next) cursor = (first' >>= next) cursor := by
  simp only [bind, EStateM.bind, h]

/-- Two binds agree at a cursor if their second readers agree wherever the first one may stop. -/
theorem bind_congr_at {first : Reader α} {next next' : α → Reader β} {cursor : Cursor}
    (h : ∀ a later, first cursor = .ok a later → next a later = next' a later) :
    (first >>= next) cursor = (first >>= next') cursor := by
  cases hf : first cursor with
  | ok a later => rw [bind_of_ok hf, bind_of_ok hf, h a later hf]
  | error fault later => rw [bind_of_error hf, bind_of_error hf]

/-! ### Single nodes -/

theorem peek_nil (depth : Nat) :
    peek ⟨[], depth⟩ = .error (.grammar .unexpectedEnd) ⟨[], depth⟩ := rfl

theorem peek_cons (node : Node) (rest : List Node) (depth : Nat) :
    peek ⟨node :: rest, depth⟩ = .ok node ⟨node :: rest, depth⟩ := rfl

theorem advance_cons (node : Node) (rest : List Node) (depth : Nat) :
    advance ⟨node :: rest, depth⟩ = .ok node ⟨rest, depth⟩ := rfl

/-- What a `peek` is followed by gets the next node and starts where the `peek` stood. -/
theorem peek_bind_cons (next : Node → Reader β) (node : Node) (rest : List Node) (depth : Nat) :
    (peek >>= next) ⟨node :: rest, depth⟩ = next node ⟨node :: rest, depth⟩ :=
  bind_of_ok (peek_cons node rest depth)

theorem peek_bind_nil (next : Node → Reader β) (depth : Nat) :
    (peek >>= next) ⟨[], depth⟩ = .error (.grammar .unexpectedEnd) ⟨[], depth⟩ :=
  bind_of_error (peek_nil depth)

theorem atom_of_isAtomic (node : Node) (h : node.category.isAtomic = true) (rest : List Node)
    (depth : Nat) : atom ⟨node :: rest, depth⟩ = .ok (.tree .atom [node]) ⟨rest, depth⟩ := by
  rw [atom, peek_bind_cons, if_pos h]
  rfl

theorem atom_of_isClose {node : Node} (h : node.isLiteral ")" = true) (rest : List Node)
    (depth : Nat) : atom ⟨node :: rest, depth⟩ = .ok node ⟨rest, depth⟩ := by
  rw [Node.eq_leaf_of_isLiteral (by decide) h]
  rfl

/-- An atom is a tree over the next node, or the next node itself where that is a `)`. -/
theorem atom_eq_ok {cursor later : Cursor} {node : Node} (h : atom cursor = .ok node later) :
    ∃ next, cursor.rest = next :: later.rest ∧ later.depth = cursor.depth ∧
      (next.category.isAtomic = true ∧ node = .tree .atom [next] ∨
        next.isLiteral ")" = true ∧ node = next) := by
  obtain ⟨rest, depth⟩ := cursor
  rcases rest with _ | ⟨next, rest⟩
  · cases h
  by_cases ha : next.category.isAtomic = true
  · rw [atom_of_isAtomic next ha] at h
    cases h
    exact ⟨next, rfl, rfl, Or.inl ⟨ha, rfl⟩⟩
  by_cases hc : next.isLiteral ")" = true
  · rw [atom_of_isClose hc] at h
    cases h
    exact ⟨_, rfl, rfl, Or.inr ⟨hc, rfl⟩⟩
  · rw [atom, peek_bind_cons, if_neg ha, if_neg hc] at h
    cases h

theorem close_cons (settings : Settings) (node : Node) (rest : List Node) (depth : Nat) :
    close settings ⟨node :: rest, depth⟩ =
      if settings.checkClose && !node.isLiteral ")" then
        .error (.grammar .expectedClose) ⟨rest, depth⟩
      else .ok node ⟨rest, depth⟩ := by
  rw [close, bind_of_ok (advance_cons node rest depth)]
  split <;> rfl

/-! ### Expressions -/

theorem exprOf_nil (list : Reader Node) (depth : Nat) :
    exprOf list ⟨[], depth⟩ = .error (.grammar .unexpectedEnd) ⟨[], depth⟩ := rfl

theorem exprOf_of_open (list : Reader Node) {node : Node} (h : node.isLiteral "(" = true)
    (rest : List Node) (depth : Nat) :
    exprOf list ⟨node :: rest, depth⟩ =
      (list >>= fun child => pure (.tree .sexpr [child])) ⟨node :: rest, depth⟩ := by
  rw [exprOf, peek_bind_cons, if_pos h]

theorem exprOf_of_not_open (list : Reader Node) {node : Node} (h : node.isLiteral "(" = false)
    (rest : List Node) (depth : Nat) :
    exprOf list ⟨node :: rest, depth⟩ =
      (atom >>= fun child => pure (.tree .sexpr [child])) ⟨node :: rest, depth⟩ := by
  rw [exprOf, peek_bind_cons, if_neg (by simp [h])]

/-- An expression is over a list, an atom or a `)`, as the next node tells. -/
theorem exprOf_eq_ok {list : Reader Node} {cursor later : Cursor} {node : Node}
    (h : exprOf list cursor = .ok node later) :
    ∃ next rest child, cursor = ⟨next :: rest, cursor.depth⟩ ∧ node = .tree .sexpr [child] ∧
      (next.isLiteral "(" = true ∧ list cursor = .ok child later ∨
        next.category.isAtomic = true ∧ child = .tree .atom [next] ∨
        next.isLiteral ")" = true ∧ child = next) := by
  obtain ⟨_ | ⟨next, rest⟩, depth⟩ := cursor
  · rw [exprOf_nil] at h
    cases h
  by_cases ho : next.isLiteral "(" = true
  · rw [exprOf_of_open list ho] at h
    obtain ⟨child, later', hl, h⟩ := bind_eq_ok_iff.1 h
    cases h
    exact ⟨next, rest, child, rfl, rfl, Or.inl ⟨ho, hl⟩⟩
  · rw [Bool.not_eq_true] at ho
    rw [exprOf_of_not_open list ho] at h
    obtain ⟨child, later', ha, h⟩ := bind_eq_ok_iff.1 h
    cases h
    obtain ⟨next', hr, -, hchild⟩ := atom_eq_ok ha
    cases hr
    exact ⟨next, _, child, rfl, rfl, Or.inr hchild⟩

section Bounded

variable [CallStack]

/-- Why an expression is not read for which there is no room. -/
def starvation (cursor : Cursor) : GrammarFault :=
  if CallStack.noticesEnd && cursor.atEnd then .unexpectedEnd else .overCap

theorem starved_eq (cursor : Cursor) :
    starved cursor = .error (.grammar (starvation cursor)) cursor := by
  show (if CallStack.noticesEnd && cursor.atEnd then fail .unexpectedEnd else overflow : Reader Node)
    cursor = _
  unfold starvation
  split <;> rfl

theorem starvation_cons (node : Node) (rest : List Node) (depth : Nat) :
    starvation ⟨node :: rest, depth⟩ = .overCap := by
  rw [starvation, Cursor.atEnd, List.isEmpty_cons, Bool.and_false, if_neg Bool.false_ne_true]

end Bounded

/-! ### Programs -/

/-- What an item reads from all cursors of a kind holds of all expressions of a program. -/
theorem forall_of_programFrom {item : Item} {kind : Cursor → Prop} {post : Node → Prop}
    (hi : ∀ ⦃cursor node later⦄, kind cursor → item.read cursor = .ok node later →
      post node ∧ kind later) {found : List Node} {cursor last : Cursor} {tree : Node}
    (h : programFrom item found cursor = .ok tree last) (hk : kind cursor)
    (hfound : ∀ node ∈ found, post node) :
    ∃ children, tree = .tree .program children ∧ ∀ child ∈ children, post child := by
  fun_induction programFrom item found cursor with
  | case1 found cursor =>
    cases h
    exact ⟨_, rfl, fun node hn => hfound node (List.mem_reverse.1 hn)⟩
  | case2 => cases h
  | case3 found cursor _ _ _ node later hr ih =>
    obtain ⟨hnode, hk'⟩ := hi hk hr
    exact ih h hk' (List.forall_mem_cons.2 ⟨hnode, hfound⟩)

end Reader

namespace Program

variable [CallStack]

theorem read_of_settings {options : Options} {settings : Settings}
    (h : options.settings = .ok settings) (nodes : List Node) :
    read nodes options =
      match Reader.program settings ⟨nodes, 0⟩ with
      | .ok tree _ => .ok tree
      | .error fault _ => .error fault := by
  cases hp : Reader.program settings ⟨nodes, 0⟩ with
  | ok tree last => simp only [read, h, hp]
  | error fault last => simp only [read, h, hp]

theorem read_eq_ok_iff {nodes : List Node} {options : Options} {tree : Node} :
    read nodes options = .ok tree ↔
      ∃ settings last, options.settings = .ok settings ∧
        Reader.program settings ⟨nodes, 0⟩ = .ok tree last := by
  cases ho : options.settings with
  | error cause =>
    rw [read, ho]
    constructor
    · intro h
      cases h
    · rintro ⟨settings, last, hs, -⟩
      cases hs
  | ok settings =>
    rw [read_of_settings ho]
    constructor
    · intro h
      cases hp : Reader.program settings ⟨nodes, 0⟩ with
      | ok tree' last =>
        rw [hp] at h
        cases h
        exact ⟨settings, last, rfl, hp⟩
      | error fault last =>
        rw [hp] at h
        cases h
    · rintro ⟨settings', last, hs, hp⟩
      cases hs
      rw [hp]

end Program

end SexprReader
