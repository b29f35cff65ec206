import SexprReader.Program
import SexprReader.Proofs.ChainRule
import SexprReader.Proofs.Scannable

/-!
# Reading as a count

Whether tokens are read, and why not, is decided by a machine that builds no tree.  It keeps a stack
with one frame for each open list, and goes through the tokens once (`Tally.step`).  A frame holds
nothing at first, and then a number: how many sequences of the list have a nested sequence and could
still get an extra one.  A `(` opens a list as long as this number lets it, and closes one when it is
down to zero.

The number is recovered from the waiting sequences of the reader (`Pending.waiting`), the height of
the stack is the depth of the cursor, and what the machine comes to from a stack is what the reader
comes to inside of as many lists (`conclude_chainFrom`, `talliesList_listWithin`).

The stack of calls bounds the machine too: on a stack of frames that is too high no node is read
(`outcomeWithin`).  Where this does not show, only the limit of the settings bounds the machine
(`outcomeWithin_agrees`).  A machine that refuses such a stack at once (`within`) comes to the same,
unless it does refuse one (`outcomeWithin_eq_outcome`).
-/

namespace SexprReader

/-- The settings without flat sequences, with a number as the limit if there is one. -/
def Settings.ofLimit (checkClose : Bool) (limit : Option Nat) : Settings :=
  { checkClose, maxDepth := limit.elim .null fun k => .int k }

namespace Tally

/-- What the machine keeps for an open list. -/
inductive Frame where
  /-- The list has no expression yet. -/
  | empty
  /-- The list has expressions, and so many of its sequences could still get an extra one. -/
  | counted (n : Nat)

/-- Opens a list on top of a stack, if a stack of that height is admitted. -/
def enter (allow : Nat → Except ReadFault Unit) (stack : List Frame) :
    Except ReadFault (List Frame) := do
  allow (stack.length + 1)
  return .empty :: stack

/-- The stack after one more token, or the fault that the machine stops with. -/
def step (checkClose : Bool) (allow : Nat → Except ReadFault Unit) (stack : List Frame)
    (node : Node) : Except ReadFault (List Frame) :=
  if node.isLiteral "(" then
    match stack with
    | [] => enter allow []
    | .empty :: outer => enter allow (.counted 0 :: outer)
    | .counted (n + 1) :: outer => enter allow (.counted n :: outer)
    | .counted 0 :: outer =>
      if checkClose then .error (.grammar .expectedClose) else .ok outer
  else if node.isLiteral ")" then
    match stack with
    | [] => .ok []
    | .empty :: outer => .ok (.counted 0 :: outer)
    | .counted _ :: outer => .ok outer
  else
    match stack with
    | [] => .ok []
    | .empty :: outer => .ok (.counted 0 :: outer)
    | .counted n :: outer => .ok (.counted (n + 1) :: outer)

/-- What the machine comes to: it may stop, and at the end no list may be open. -/
def outcome (checkClose : Bool) (allow : Nat → Except ReadFault Unit) (stack : List Frame)
    (nodes : List Node) : Except ReadFault Unit := do
  match ← nodes.foldlM (step checkClose allow) stack with
  | [] => .ok ()
  | _ :: _ => .error (.grammar .unexpectedEnd)

/-- Stacks may be as high as the limit, if there is one. -/
def upTo (limit : Option Nat) (height : Nat) : Except ReadFault Unit :=
  if limit.any (· < height) then .error (.grammar .tooDeep) else .ok ()

/-- Stacks may be as high as the settings allow. -/
def admitted (settings : Settings) (height : Nat) : Except ReadFault Unit :=
  match settings.exceeded height with
  | .error cause => .error (.settings cause)
  | .ok true => .error (.grammar .tooDeep)
  | .ok false => .ok ()

/-- Stacks may be as high as `allow` says, but no higher than `room`. -/
def within (room : Nat) (allow : Nat → Except ReadFault Unit) (height : Nat) :
    Except ReadFault Unit := do
  allow height
  if room < height then .error (.grammar .overCap) else .ok ()

/-- What the machine comes to if there is no room to read on where the stack is higher than `room`. -/
def outcomeWithin [CallStack] (room : Nat) (checkClose : Bool) (allow : Nat → Except ReadFault Unit)
    (stack : List Frame) (nodes : List Node) : Except ReadFault Unit :=
  if room < stack.length then .error (.grammar (Reader.starvation ⟨nodes, stack.length⟩))
  else
    match nodes with
    | [] => outcome checkClose allow stack []
    | node :: rest =>
      step checkClose allow stack node >>= fun stack =>
        outcomeWithin room checkClose allow stack rest

section Steps

variable (checkClose : Bool) (allow : Nat → Except ReadFault Unit)

theorem enter_eq_ok_iff {stack stack' : List Frame} :
    enter allow stack = .ok stack' ↔
      allow (stack.length + 1) = .ok () ∧ .empty :: stack = stack' := by
  unfold enter
  cases allow (stack.length + 1) <;> simp [bind, Except.bind, pure, Except.pure]

theorem enter_eq_error_iff {stack : List Frame} {fault : ReadFault} :
    enter allow stack = .error fault ↔ allow (stack.length + 1) = .error fault := by
  unfold enter
  cases allow (stack.length + 1) <;> simp [bind, Except.bind, pure, Except.pure]

theorem outcome_cons (stack : List Frame) (node : Node) (rest : List Node) :
    outcome checkClose allow stack (node :: rest) =
      step checkClose allow stack node >>= fun stack => outcome checkClose allow stack rest := by
  rw [outcome, List.foldlM_cons]
  cases step checkClose allow stack node <;> rfl

theorem step_atom {token : Token} (h : token.IsAtom) (stack : List Frame) :
    step checkClose allow stack (.leaf token) =
      match stack with
      | [] => .ok []
      | .empty :: outer => .ok (.counted 0 :: outer)
      | .counted n :: outer => .ok (.counted (n + 1) :: outer) := by
  unfold step
  rw [h.isLiteral, h.isLiteral]
  rfl

theorem step_closeParen (stack : List Frame) :
    step checkClose allow stack (.leaf .closeParen) =
      match stack with
      | [] => .ok []
      | .empty :: outer => .ok (.counted 0 :: outer)
      | .counted _ :: outer => .ok outer := rfl

theorem step_openParen (stack : List Frame) :
    step checkClose allow stack (.leaf .openParen) =
      match stack with
      | [] => enter allow []
      | .empty :: outer => enter allow (.counted 0 :: outer)
      | .counted (n + 1) :: outer => enter allow (.counted n :: outer)
      | .counted 0 :: outer =>
        if checkClose then .error (.grammar .expectedClose) else .ok outer := rfl

end Steps

/-! ### Two bounds on the stack -/

section Bounds

variable {room : Nat} {allow : Nat → Except ReadFault Unit} {stack : List Frame}

/-- A list is entered if there is room for it, and else the machine stops at once. -/
theorem enter_within (stack : List Frame) :
    enter (within room allow) stack = .error (.grammar .overCap) ∨
      enter (within room allow) stack = enter allow stack ∧
        ∀ stack', enter allow stack = .ok stack' → stack'.length ≤ room := by
  rw [enter, enter, within]
  cases allow (stack.length + 1) with
  | error fault => exact Or.inr ⟨rfl, nofun⟩
  | ok _ =>
    by_cases hr : room < stack.length + 1
    · rw [if_pos hr]
      exact Or.inl rfl
    · rw [if_neg hr]
      refine Or.inr ⟨rfl, fun stack' he => ?_⟩
      cases he
      exact Nat.le_of_not_lt hr

/-- Only a `(` makes the stack higher. -/
theorem length_le_of_step {checkClose : Bool} {node : Node} {stack' : List Frame}
    (ho : node.isLiteral "(" = false) (h : step checkClose allow stack node = .ok stack') :
    stack'.length ≤ stack.length := by
  unfold step at h
  rw [if_neg (Bool.eq_false_iff.1 ho)] at h
  split at h <;> rcases stack with _ | ⟨_ | n, outer⟩ <;> cases h <;> simp

theorem step_within (h : stack.length ≤ room) (checkClose : Bool) (node : Node) :
    step checkClose (within room allow) stack node = .error (.grammar .overCap) ∨
      step checkClose (within room allow) stack node = step checkClose allow stack node ∧
        ∀ stack', step checkClose allow stack node = .ok stack' → stack'.length ≤ room := by
  by_cases ho : node.isLiteral "(" = true
  · unfold step
    simp only [if_pos ho]
    rcases stack with _ | ⟨_ | (_ | n), outer⟩
    · exact enter_within _
    · exact enter_within _
    · refine Or.inr ⟨rfl, fun stack' he => ?_⟩
      cases checkClose <;> cases he
      exact Nat.le_of_succ_le h
    · exact enter_within _
  · have hsame : step checkClose (within room allow) stack node = step checkClose allow stack node := by
      unfold step
      rw [if_neg ho, if_neg ho]
    refine Or.inr ⟨hsame, fun stack' he => ?_⟩
    exact Nat.le_trans (length_le_of_step (Bool.eq_false_iff.2 ho) he) h

variable [CallStack]

theorem outcomeWithin_nil (h : stack.length ≤ room) (checkClose : Bool) :
    outcomeWithin room checkClose allow stack [] = outcome checkClose allow stack [] := by
  rw [outcomeWithin, if_neg (Nat.not_lt_of_le h)]

theorem outcomeWithin_cons (h : stack.length ≤ room) (checkClose : Bool) (node : Node)
    (rest : List Node) :
    outcomeWithin room checkClose allow stack (node :: rest) =
      step checkClose allow stack node >>= fun stack =>
        outcomeWithin room checkClose allow stack rest := by
  rw [outcomeWithin, if_neg (Nat.not_lt_of_le h)]

theorem outcomeWithin_of_lt (h : room < stack.length) (checkClose : Bool) (nodes : List Node) :
    outcomeWithin room checkClose allow stack nodes =
      .error (.grammar (Reader.starvation ⟨nodes, stack.length⟩)) := by
  unfold outcomeWithin
  exact if_pos h

/-- For want of room the machine stops as such, or at the end of the nodes as it would anyway. -/
theorem outcomeWithin_agrees (room : Nat) (checkClose : Bool)
    (allow : Nat → Except ReadFault Unit) (stack : List Frame) (nodes : List Node) :
    outcomeWithin room checkClose allow stack nodes = .error (.grammar .overCap) ∨
      outcomeWithin room checkClose allow stack nodes = outcome checkClose allow stack nodes := by
  induction nodes generalizing stack with
  | nil =>
    by_cases h : room < stack.length
    · rw [outcomeWithin_of_lt h, Reader.starvation]
      split
      · obtain ⟨frame, outer, rfl⟩ := List.exists_cons_of_length_pos (Nat.zero_lt_of_lt h)
        exact Or.inr rfl
      · exact Or.inl rfl
    · exact Or.inr (outcomeWithin_nil (Nat.le_of_not_lt h) checkClose)
  | cons node rest ih =>
    by_cases h : room < stack.length
    · rw [outcomeWithin_of_lt h, Reader.starvation_cons]
      exact Or.inl rfl
    · rw [outcomeWithin_cons (Nat.le_of_not_lt h), outcome_cons]
      cases step checkClose allow stack node with
      | ok stack' => exact ih stack'
      | error fault => exact Or.inr rfl

/-- A machine that stops at once for want of room comes to the same, unless it does so. -/
theorem outcomeWithin_eq_outcome {checkClose : Bool} {nodes : List Node} (h : stack.length ≤ room)
    (hne : outcome checkClose (within room allow) stack nodes ≠ .error (.grammar .overCap)) :
    outcomeWithin room checkClose allow stack nodes =
      outcome checkClose (within room allow) stack nodes := by
  induction nodes generalizing stack with
  | nil => exact outcomeWithin_nil h checkClose
  | cons node rest ih =>
    rw [outcome_cons] at hne ⊢
    rw [outcomeWithin_cons h]
    rcases step_within h checkClose node with hs | ⟨hs, hroom⟩
    · rw [hs] at hne
      exact absurd rfl hne
    · rw [hs] at hne ⊢
      cases hstep : step checkClose allow stack node with
      | ok stack' =>
        rw [hstep] at hne
        exact ih (hroom stack' hstep) hne
      | error fault => rfl

end Bounds

/-- The limit of the settings, as a bound on the stack. -/
theorem admitted_ofLimit (checkClose : Bool) (limit : Option Nat) :
    admitted (.ofLimit checkClose limit) = upTo limit := by
  funext height
  rw [admitted]
  cases limit with
  | none => rfl
  | some k =>
    have he : (Settings.ofLimit checkClose (some k)).exceeded height = .ok (decide (k < height)) :=
      congrArg Except.ok (decide_eq_decide.2 Int.ofNat_lt)
    rw [he, upTo, Option.any_some]
    by_cases hk : k < height
    · simp [hk]
    · simp [hk]

end Tally

/-! ### Waiting sequences -/

namespace Pending

/-- The number of waiting sequences that could still get an extra one. -/
def waiting : List Pending → Nat
  | [] => 0
  | .awaitsNested _ :: outer => waiting outer + 1
  | .awaitsExtra _ _ :: outer => waiting outer

end Pending

namespace Reader

/-- Before a `)` all sequences are finished. -/
theorem finish_false (done : Node) (outer : List Pending) :
    ∃ node, finish false done outer = .inl node := by
  induction outer generalizing done with
  | nil => exact ⟨done, rfl⟩
  | cons pending outer ih => cases pending <;> exact ih _

/-- Before a `(` all sequences are finished if none could get an extra one. -/
theorem finish_true_of_waiting_eq_zero (done : Node) {outer : List Pending}
    (h : Pending.waiting outer = 0) : ∃ node, finish true done outer = .inl node := by
  induction outer generalizing done with
  | nil => exact ⟨done, rfl⟩
  | cons pending outer ih =>
    cases pending with
    | awaitsNested head => exact absurd h (Nat.succ_ne_zero _)
    | awaitsExtra head nested => exact ih _ h

/-- Before a `(` the innermost sequence that could get an extra one gets it. -/
theorem finish_true_of_waiting_eq_succ (done : Node) {outer : List Pending} {n : Nat}
    (h : Pending.waiting outer = n + 1) :
    ∃ outer', finish true done outer = .inr outer' ∧ Pending.waiting outer' = n := by
  induction outer generalizing done with
  | nil => exact absurd h.symm (Nat.succ_ne_zero _)
  | cons pending outer ih =>
    cases pending with
    | awaitsNested head => exact ⟨_, rfl, Nat.succ.inj h⟩
    | awaitsExtra head nested => exact ih _ h

/-! ### What a reader comes to -/

/-- What a run comes to, if `next` says so for the results. -/
def conclude {α : Type} (result : EStateM.Result ReadFault Cursor α)
    (next : α → Cursor → Except ReadFault Unit) : Except ReadFault Unit :=
  match result with
  | .ok a cursor => next a cursor
  | .error fault _ => .error fault

section Conclude

variable {α β : Type}

theorem conclude_bind (first : Reader α) (then' : α → Reader β) (cursor : Cursor)
    (next : β → Cursor → Except ReadFault Unit) :
    conclude ((first >>= then') cursor) next =
      conclude (first cursor) fun a later => conclude (then' a later) next := by
  cases hf : first cursor with
  | ok a later => rw [bind_of_ok hf]; rfl
  | error fault later => rw [bind_of_error hf]; rfl

theorem conclude_congr {result : EStateM.Result ReadFault Cursor α}
    {next next' : α → Cursor → Except ReadFault Unit}
    (h : ∀ a later, result = .ok a later → next a later = next' a later) :
    conclude result next = conclude result next' := by
  cases result with
  | ok a later => exact h a later rfl
  | error fault later => rfl

/-- The level that is given back does not matter for what is left to read. -/
theorem conclude_leave (result : EStateM.Result ReadFault Cursor α)
    (next : List Node → Except ReadFault Unit) :
    conclude (leave result) (fun _ later => next later.rest) =
      conclude result fun _ later => next later.rest := by
  cases result <;> rfl

end Conclude

/-! ### Readers and the machine -/

section Machine

variable {settings : Settings} {cap room : Nat} {item : Item}

/-- One level deeper a reader goes on as it does there, if one more list is admitted. -/
theorem conclude_nested {α : Type} (inner : Reader α) (rest : List Node) (level : Nat)
    (next : List Node → Except ReadFault Unit) :
    conclude (nested settings inner ⟨rest, level⟩) (fun _ later => next later.rest) =
      Tally.admitted settings (level + 1) >>= fun _ =>
        conclude (inner ⟨rest, level + 1⟩) fun _ later => next later.rest := by
  rw [Tally.admitted]
  cases he : settings.exceeded (level + 1) with
  | error cause =>
    rw [nested_of_error he]
    rfl
  | ok exceeds =>
    cases exceeds with
    | true =>
      rw [nested_of_exceeded he]
      rfl
    | false =>
      rw [nested_of_admitted he, conclude_leave _ next]
      rfl

/-- An atom or a `)` is an expression of its own. -/
theorem exists_exprOf_of_single (list : Reader Node) {token : Token}
    (h : token.IsAtom ∨ token = .closeParen) (rest : List Node) (depth : Nat) :
    ∃ node, exprOf list ⟨.leaf token :: rest, depth⟩ = .ok node ⟨rest, depth⟩ := by
  rcases h with ha | rfl
  · refine ⟨.tree .sexpr [.tree .atom [.leaf token]], ?_⟩
    rw [exprOf_of_not_open list (ha.isLiteral _),
      bind_of_ok (atom_of_isAtomic (.leaf token) ha.1 rest depth)]
    rfl
  · refine ⟨.tree .sexpr [.leaf .closeParen], ?_⟩
    rw [exprOf_of_not_open list (by decide),
      bind_of_ok (atom_of_isClose (by decide) rest depth)]
    rfl

/-- A reader of expressions that wants a node at the end, and to which an atom or a `)` is an expression
of its own. -/
structure TakesSingles (item : Item) : Prop where
  lossless : Lossless item.read
  nil : ∀ depth, item.read ⟨[], depth⟩ = .error (.grammar .unexpectedEnd) ⟨[], depth⟩
  single : ∀ {token : Token}, token.IsAtom ∨ token = .closeParen → ∀ rest depth,
    ∃ node, item.read ⟨.leaf token :: rest, depth⟩ = .ok node ⟨rest, depth⟩

theorem takesSingles_exprOf {list : Reader Node} (hl : Lossless list) (hc : Consumes (exprOf list)) :
    TakesSingles ⟨exprOf list, hc⟩ where
  lossless := lossless_exprOf hl
  nil _ := rfl
  single := exists_exprOf_of_single list

/-- A program comes to what a count comes to that goes on behind each expression. -/
theorem conclude_programFrom {count : List Node → Except ReadFault Unit}
    (hl : Lossless item.read) (hnil : count [] = .ok ())
    (hcons : ∀ {next : Node} {rest : List Node}, Cursor.IsScannable ⟨next :: rest, 0⟩ →
      conclude (item.read ⟨next :: rest, 0⟩) (fun _ later => count later.rest) =
        count (next :: rest))
    (found : List Node) {cursor : Cursor} (hd : cursor.depth = 0) (hs : cursor.IsScannable) :
    conclude (programFrom item found cursor) (fun _ _ => .ok ()) = count cursor.rest := by
  induction hn : cursor.rest.length using Nat.strongRecOn generalizing found cursor with
  | ind n ih =>
    obtain ⟨_ | ⟨next, rest⟩, depth⟩ := cursor
    · rw [programFrom_of_nil item found rfl]
      exact hnil.symm
    subst hd
    rw [programFrom_of_cons item found rfl, conclude_bind, ← hcons hs]
    refine conclude_congr fun node later hr => ?_
    obtain ⟨taken, -, hd', -⟩ := hl hr
    exact ih _ (hn ▸ item.consumes hr) (node :: found) hd' (hs.of_takes hl hr) rfl

/-- What ends a list, behind its body. -/
def endList (settings : Settings) (opener inner : Node) : Reader Node := do
  let closer ← close settings
  return .tree .list [opener, inner, closer]

/-- A body that goes on reads an expression, and then on inside of the sequences that wait then. -/
theorem conclude_chainFrom_of_inr (opener : Node) {head next : Node} {outer outer' : List Pending}
    (ho : settle next head outer = .inr outer') (rest : List Node) (depth : Nat)
    (then' : Node → Cursor → Except ReadFault Unit) :
    conclude ((chainFrom item head outer >>= endList settings opener) ⟨next :: rest, depth⟩) then' =
      conclude (item.read ⟨next :: rest, depth⟩) fun head later =>
        conclude ((chainFrom item head outer' >>= endList settings opener) later) then' := by
  rw [bind_congr_left (chainFrom_of_inr item rfl ho), bind_assoc, conclude_bind]

variable [CallStack]

/-- What the machine comes to, by the settings and with room to read on inside of `cap` lists. -/
def tally (settings : Settings) (cap : Nat) (stack : List Tally.Frame) (nodes : List Node) :
    Except ReadFault Unit :=
  Tally.outcomeWithin cap settings.checkClose (Tally.admitted settings) stack nodes

theorem tally_cons {stack : List Tally.Frame} (h : stack.length ≤ cap) (node : Node)
    (rest : List Node) :
    tally settings cap stack (node :: rest) =
      Tally.step settings.checkClose (Tally.admitted settings) stack node >>= fun stack =>
        tally settings cap stack rest :=
  Tally.outcomeWithin_cons h settings.checkClose node rest

theorem tally_nil {stack : List Tally.Frame} (h : stack.length ≤ cap) :
    tally settings cap stack [] =
      Tally.outcome settings.checkClose (Tally.admitted settings) stack [] :=
  Tally.outcomeWithin_nil h settings.checkClose

/-- Reading a list in as many lists as there are frames comes to what the machine comes to that
enters it. -/
def TalliesList (settings : Settings) (cap : Nat) (list : Reader Node) (room : Nat) : Prop :=
  ∀ (stack : List Tally.Frame) (rest : List Node), stack.length + room = cap →
    Cursor.IsScannable ⟨rest, stack.length⟩ →
      conclude (list ⟨.leaf .openParen :: rest, stack.length⟩)
          (fun _ later => tally settings cap stack later.rest) =
        Tally.enter (Tally.admitted settings) stack >>= fun stack => tally settings cap stack rest

/-- What the machine needs to know about the reader of the expressions in a list. -/
structure TalliesItem (settings : Settings) (cap : Nat) (item : Item) (room : Nat) : Prop
    extends TakesSingles item where
  list : TalliesList settings cap item.read room

theorem talliesItem_exprOf {list : Reader Node} (hl : Lossless list)
    (h : TalliesList settings cap list room) (hc : Consumes (exprOf list)) :
    TalliesItem settings cap ⟨exprOf list, hc⟩ room where
  toTakesSingles := takesSingles_exprOf hl hc
  list := by
    intro stack rest hroom hs
    show conclude (exprOf list _) _ = _
    rw [exprOf_of_open list (by decide), conclude_bind]
    exact h stack rest hroom hs

/-- An atom or a `)` is taken, and the machine goes on behind it. -/
theorem TalliesItem.conclude_single
    (hi : TalliesItem settings cap item room) {token : Token}
    (ht : token.IsAtom ∨ token = .closeParen) (rest : List Node) (depth : Nat)
    (stack : List Tally.Frame) :
    conclude (item.read ⟨.leaf token :: rest, depth⟩)
        (fun _ later => tally settings cap stack later.rest) = tally settings cap stack rest := by
  obtain ⟨node, hr⟩ := hi.single ht rest depth
  rw [hr]
  rfl

/-- Where an expression must stand, one is taken, and the machine goes on behind it. -/
theorem TalliesItem.conclude_read (hi : TalliesItem settings cap item room)
    (stack stack' : List Tally.Frame) (hcap : stack.length ≤ cap) (hroom : stack'.length + room = cap)
    (hatom : ∀ {token : Token}, token.IsAtom →
      Tally.step settings.checkClose (Tally.admitted settings) stack (.leaf token) = .ok stack')
    (hclose : Tally.step settings.checkClose (Tally.admitted settings) stack (.leaf .closeParen) =
      .ok stack')
    (hopen : Tally.step settings.checkClose (Tally.admitted settings) stack (.leaf .openParen) =
      Tally.enter (Tally.admitted settings) stack')
    {next : Node} {rest : List Node} (hs : Cursor.IsScannable ⟨next :: rest, stack'.length⟩) :
    conclude (item.read ⟨next :: rest, stack'.length⟩)
        (fun _ later => tally settings cap stack' later.rest) =
      tally settings cap stack (next :: rest) := by
  rw [tally_cons hcap]
  rcases hs.head with ⟨token, ha, rfl⟩ | rfl | rfl
  · rw [hi.conclude_single (Or.inl ha), hatom ha]
    rfl
  · rw [hi.list stack' rest hroom (hs.of_cons _), hopen]
  · rw [hi.conclude_single (Or.inr rfl), hclose]
    rfl

/-- A list whose body is finished is popped from the stack. -/
theorem conclude_endList (opener inner : Node) (stack : List Tally.Frame) (closer : Node)
    (rest : List Node) (depth : Nat) :
    conclude (endList settings opener inner ⟨closer :: rest, depth⟩)
        (fun _ later => tally settings cap stack later.rest) =
      if settings.checkClose && !closer.isLiteral ")" then .error (.grammar .expectedClose)
      else tally settings cap stack rest := by
  rw [endList, conclude_bind, close_cons]
  split <;> rfl

/-- A body that is finished leaves it to the next node to end the list. -/
theorem conclude_chainFrom_of_inl (opener : Node) (stack : List Tally.Frame) {head next node : Node}
    {outer : List Pending} (ho : settle next head outer = .inl node) (rest : List Node)
    (depth : Nat) :
    conclude ((chainFrom item head outer >>= endList settings opener) ⟨next :: rest, depth⟩)
        (fun _ later => tally settings cap stack later.rest) =
      if settings.checkClose && !next.isLiteral ")" then .error (.grammar .expectedClose)
      else tally settings cap stack rest := by
  rw [bind_of_ok (chainFrom_of_inl item rfl ho), conclude_endList]

/-- Inside a list, the number of its frame is the number of waiting sequences that could still get an
extra one. -/
theorem conclude_chainFrom (hi : TalliesItem settings cap item room) (opener : Node)
    {stack : List Tally.Frame} (hroom : stack.length + 1 + room = cap) (head : Node)
    (outer : List Pending) {cursor : Cursor} (hd : cursor.depth = stack.length + 1)
    (hs : cursor.IsScannable) :
    conclude ((chainFrom item head outer >>= endList settings opener) cursor)
        (fun _ later => tally settings cap stack later.rest) =
      tally settings cap (.counted (Pending.waiting outer) :: stack) cursor.rest := by
  induction hn : cursor.rest.length using Nat.strongRecOn generalizing head outer cursor with
  | ind n ih =>
    obtain ⟨rest, depth⟩ := cursor
    subst hd
    have hcap : (Tally.Frame.counted (Pending.waiting outer) :: stack).length ≤ cap :=
      Nat.le_of_add_right_le (Nat.le_of_eq hroom)
    rcases rest with _ | ⟨next, rest⟩
    · rw [bind_of_error (chainFrom_of_nil item head outer rfl), tally_nil hcap]
      rfl
    -- if the body goes on, the frame has the number of the sequences that wait then
    have goesOn : ∀ {outer'}, settle next head outer = .inr outer' →
        conclude ((chainFrom item head outer >>= endList settings opener)
            ⟨next :: rest, stack.length + 1⟩)
            (fun _ later => tally settings cap stack later.rest) =
          conclude (item.read ⟨next :: rest, stack.length + 1⟩) fun _ later =>
            tally settings cap (.counted (Pending.waiting outer') :: stack) later.rest := by
      intro outer' ho
      rw [conclude_chainFrom_of_inr opener ho]
      refine conclude_congr fun head' later hr => ?_
      obtain ⟨taken, -, hd', -⟩ := hi.lossless hr
      exact ih _ (hn ▸ item.consumes hr) head' outer' hd' (hs.of_takes hi.lossless hr) rfl
    show _ = tally settings cap _ (next :: rest)
    rw [tally_cons hcap]
    rcases hs.head with ⟨token, ha, rfl⟩ | rfl | rfl
    · have ho : settle (.leaf token) head outer = .inr (.awaitsNested head :: outer) := by
        rw [settle, ha.endsSeq]
        rfl
      rw [goesOn ho, hi.conclude_single (Or.inl ha), Tally.step_atom _ _ ha]
      rfl
    · have ho : settle (.leaf .openParen) head outer = finish true (.tree .seq [head]) outer := rfl
      rw [Tally.step_openParen]
      cases hw : Pending.waiting outer with
      | zero =>
        obtain ⟨node, hf⟩ := finish_true_of_waiting_eq_zero (.tree .seq [head]) hw
        rw [conclude_chainFrom_of_inl opener stack (ho.trans hf)]
        cases hc : settings.checkClose
        · simp [tally, hc]
          rfl
        · rfl
      | succ n =>
        obtain ⟨outer', hf, hw'⟩ := finish_true_of_waiting_eq_succ (.tree .seq [head]) hw
        rw [goesOn (ho.trans hf), hw']
        exact hi.list (.counted n :: stack) rest hroom (hs.of_cons _)
    · obtain ⟨node, hf⟩ := finish_false (.tree .seq [head]) outer
      have ho : settle (.leaf .closeParen) head outer = .inl node := hf
      rw [conclude_chainFrom_of_inl opener stack ho, Tally.step_closeParen]
      have hb : (settings.checkClose && !(Node.leaf .closeParen).isLiteral ")") = false :=
        Bool.and_false _
      rw [hb]
      rfl

/-- A list that has no expression yet is an empty frame. -/
theorem conclude_chainList (hi : TalliesItem settings cap item room) (opener : Node)
    {stack : List Tally.Frame} (hroom : stack.length + 1 + room = cap) {rest : List Node}
    (hs : Cursor.IsScannable ⟨rest, stack.length + 1⟩) :
    conclude (chainList settings item opener ⟨rest, stack.length + 1⟩)
        (fun _ later => tally settings cap stack later.rest) =
      tally settings cap (.empty :: stack) rest := by
  have hc : chainList settings item opener =
      item.read >>= fun head => chainFrom item head [] >>= endList settings opener := by
    show (chainSeq item >>= endList settings opener) = _
    rw [chainSeq, bind_assoc]
  have hr : conclude (chainList settings item opener ⟨rest, stack.length + 1⟩)
        (fun _ later => tally settings cap stack later.rest) =
      conclude (item.read ⟨rest, stack.length + 1⟩) fun _ later =>
        tally settings cap (.counted 0 :: stack) later.rest := by
    rw [hc, conclude_bind]
    refine conclude_congr fun head later hr => ?_
    obtain ⟨taken, -, hd, -⟩ := hi.lossless hr
    exact conclude_chainFrom hi opener hroom head [] hd (hs.of_takes hi.lossless hr)
  have hcap : (Tally.Frame.empty :: stack).length ≤ cap :=
    Nat.le_of_add_right_le (Nat.le_of_eq hroom)
  rw [hr]
  rcases rest with _ | ⟨next, rest⟩
  · rw [hi.nil, tally_nil hcap]
    rfl
  exact hi.conclude_read (.empty :: stack) (.counted 0 :: stack) hcap hroom
    (fun ha => Tally.step_atom _ _ ha _) rfl rfl hs

theorem talliesList_listOf (hf : settings.flat = false)
    (hi : TalliesItem settings cap item room) :
    TalliesList settings cap (listOf settings item) (room + 1) := by
  intro stack rest hroom hs
  rw [listOf_of_open hf item (by decide), conclude_nested _ _ _ (tally settings cap stack),
    bind_of_ok (advance_cons _ _ _),
    conclude_chainList hi _ (by omega) (fun node hn => hs node hn), Tally.enter]
  cases Tally.admitted settings (stack.length + 1) <;> rfl

/-- A list that is entered without room for an expression in it leaves no room for the machine. -/
theorem talliesList_starved (hf : settings.flat = false) :
    TalliesList settings cap (listOf settings ⟨starved, consumes_starved⟩) 0 := by
  intro stack rest hroom hs
  have hlt : cap < (Tally.Frame.empty :: stack).length := by
    rw [List.length_cons]
    omega
  have hstop : chainList settings ⟨starved, consumes_starved⟩ (.leaf .openParen)
      ⟨rest, stack.length + 1⟩ =
        .error (.grammar (starvation ⟨rest, stack.length + 1⟩)) ⟨rest, stack.length + 1⟩ :=
    bind_of_error (bind_of_error (starved_eq _))
  rw [listOf_of_open hf _ (by decide), conclude_nested _ _ _ (tally settings cap stack),
    bind_of_ok (advance_cons _ _ _), hstop, Tally.enter]
  cases Tally.admitted settings (stack.length + 1) with
  | error fault => rfl
  | ok _ => exact (Tally.outcomeWithin_of_lt hlt settings.checkClose rest).symm

theorem talliesList_listWithin (hf : settings.flat = false) :
    ∀ room, TalliesList settings cap (listWithin settings room).read room
  | 0 => talliesList_starved hf
  | room + 1 =>
    talliesList_listOf hf (talliesItem_exprOf (lossless_listWithin settings room)
      (talliesList_listWithin hf room) _)

theorem conclude_program (hf : settings.flat = false) {nodes : List Node}
    (hs : Cursor.IsScannable ⟨nodes, 0⟩) :
    conclude (program settings ⟨nodes, 0⟩) (fun _ _ => .ok ()) =
      tally settings CallStack.room [] nodes := by
  have hi : TalliesItem settings CallStack.room (expr settings) CallStack.room :=
    talliesItem_exprOf (lossless_list settings) (talliesList_listWithin hf CallStack.room) _
  refine conclude_programFrom hi.lossless (tally_nil (Nat.zero_le _)) (fun hs => ?_) [] rfl hs
  exact hi.conclude_read [] [] (Nat.zero_le _) (Nat.zero_add _) (fun ha => Tally.step_atom _ _ ha _)
    rfl rfl hs

end Machine

end Reader

namespace Program

section Bounded

variable [CallStack]

theorem map_read_eq_conclude {options : Options} {settings : Settings}
    (ho : options.settings = .ok settings) (nodes : List Node) :
    (read nodes options).map (fun _ => ()) =
      Reader.conclude (Reader.program settings ⟨nodes, 0⟩) fun _ _ => .ok () := by
  rw [read_of_settings ho]
  cases Reader.program settings ⟨nodes, 0⟩ <;> rfl

/-- Whether nodes are read, and the fault if they are not, is what the machine comes to. -/
theorem map_read_eq_tally {options : Options} {settings : Settings}
    (ho : options.settings = .ok settings) (hf : settings.flat = false) {nodes : List Node}
    (hs : Cursor.IsScannable ⟨nodes, 0⟩) :
    (read nodes options).map (fun _ => ()) =
      Reader.tally settings CallStack.room [] nodes :=
  (map_read_eq_conclude ho nodes).trans (Reader.conclude_program hf hs)

section Outcome

variable {options : Options} {nodes : List Node}

theorem exists_read_of_map_eq_ok (h : (read nodes options).map (fun _ => ()) = .ok ()) :
    ∃ tree, read nodes options = .ok tree := by
  cases hr : read nodes options with
  | ok tree => exact ⟨tree, rfl⟩
  | error fault =>
    rw [hr] at h
    cases h

theorem read_eq_error_of_map_eq_error {fault : ReadFault}
    (h : (read nodes options).map (fun _ => ()) = .error fault) :
    read nodes options = .error fault := by
  cases hr : read nodes options with
  | ok tree =>
    rw [hr] at h
    cases h
  | error fault' =>
    rw [hr] at h
    cases h
    rfl

end Outcome

/-- Where a machine that stops at once for want of room does not do so, reading comes to what that
machine comes to. -/
theorem map_read_eq_of_outcome {options : Options} {settings : Settings}
    (ho : options.settings = .ok settings) (hf : settings.flat = false) {nodes : List Node}
    (hs : Cursor.IsScannable ⟨nodes, 0⟩) {result : Except ReadFault Unit}
    (h : Tally.outcome settings.checkClose (Tally.within CallStack.room (Tally.admitted settings))
      [] nodes = result) (hne : result ≠ .error (.grammar .overCap)) :
    (read nodes options).map (fun _ => ()) = result := by
  subst h
  exact (map_read_eq_tally ho hf hs).trans (Tally.outcomeWithin_eq_outcome (Nat.zero_le _) hne)

/-- The tokens of a text come to what the machine comes to that has room for as many lists as the stack
of calls.  Where it does not stop for want of room, only the limit bounds the machine. -/
theorem outcome_of_read {text : String} {tokens : List Token} (h : Token.scan text = .ok tokens)
    (checkClose : Bool) (limit : Option Nat) {options : Options}
    (ho : options.settings = .ok (.ofLimit checkClose limit)) :
    let outcome := (read (tokens.map .leaf) options).map fun _ => ()
    outcome = Tally.outcomeWithin CallStack.room checkClose (Tally.upTo limit) []
      (tokens.map .leaf) ∧
    (outcome ≠ .error (.grammar .overCap) →
      outcome = Tally.outcome checkClose (Tally.upTo limit) [] (tokens.map .leaf)) ∧
    GrammarFault.expectedClose.message = "expected ')'" ∧
    GrammarFault.tooDeep.message = "max nesting depth exceeded" ∧
    GrammarFault.unexpectedEnd.message = "unexpected end of input" := by
  intro outcome
  have hread : outcome = Tally.outcomeWithin CallStack.room checkClose (Tally.upTo limit) []
      (tokens.map .leaf) := by
    rw [← Tally.admitted_ofLimit checkClose]
    exact map_read_eq_tally ho rfl (Cursor.isScannable_map_leaf (Token.isScannable_of_scan h) 0)
  refine ⟨hread, fun hne => ?_, rfl, rfl, rfl⟩
  rcases Tally.outcomeWithin_agrees CallStack.room checkClose (Tally.upTo limit) []
    (tokens.map .leaf) with he | he
  · exact absurd (hread.trans he) hne
  · exact hread.trans he

end Bounded

/-- With `check_close` the second `(` of `(a (` ends nothing. -/
theorem outcome_of_read_check_close :
    let nodes : List Node :=
      [.leaf ⟨.literal, "("⟩, .leaf ⟨.identifier, "a"⟩, .leaf ⟨.literal, "("⟩]
    let options : Options :=
      .loose (.object [("check_close", .bool true), ("max_depth", .int 2)])
    (read nodes options).map (fun _ => ()) = Tally.outcome true (Tally.upTo (some 2)) [] nodes ∧
      Tally.outcome true (Tally.upTo (some 2)) [] nodes = .error (.grammar .expectedClose) := by
  intro nodes options
  have hscan : Token.scan "(a (" =
      .ok [⟨.literal, "("⟩, ⟨.identifier, "a"⟩, ⟨.literal, "("⟩] :=
    eq_ok_of_toOption (by decide +kernel)
  have ho : options.settings = .ok (.ofLimit true (some 2)) := rfl
  obtain ⟨hread, hlimit, -⟩ := outcome_of_read hscan true (some 2) ho
  refine ⟨hlimit ?_, rfl⟩
  rw [hread]
  intro hc
  cases hc

end Program

end SexprReader
