import Mathlib.Order.Bounds.Basic
import SexprReader.Proofs.Balanced

/-!
# Flat sequences as a count

With flat sequences every `(` opens a list and every `)` closes one, if one is open.  So whether
tokens are read, and why not, is decided by the number of open lists alone (`OpenLists.after`): it may
not pass the limit, and at the end it must be zero.  A list that is opened beyond the room on the stack
of calls must be closed at once, as there is no room for an expression in it (`OpenLists.Starves`).

As in `Tally`, the number is carried through the nodes by a machine that stops where a list is not
admitted (`OpenLists.outcome`), and a reader of a list inside of `level` lists comes to what the machine
comes to at the number `level` (`countsList_listWithin`).  The machine stops just where the number
exceeds a bound (`OpenLists.outcome_upTo`), so the limits under which tokens are read are those that
the number respects; and these are the ones that admit the tree (`Program.nesting_eq_peak`).
-/

namespace SexprReader

namespace OpenLists

/-- The number of open lists after one more node. -/
def step (level : Nat) (node : Node) : Nat :=
  if node.isLiteral "(" then level + 1
  else if node.isLiteral ")" then level - 1
  else level

/-- The number of open lists after the nodes, if so many are open before. -/
def after (level : Nat) (nodes : List Node) : Nat := nodes.foldl step level

/-- The greatest number of open lists after a beginning of the nodes. -/
def peak (level : Nat) : List Node → Nat
  | [] => level
  | node :: rest => max level (peak (step level node) rest)

/-- One more node, if a list that it opens is admitted. -/
def visit (allow : Nat → Except ReadFault Unit) (level : Nat) (node : Node) :
    Except ReadFault Nat := do
  if node.isLiteral "(" then allow (level + 1)
  return step level node

/-- What the count comes to: it may stop, at a list that is not admitted or for want of room where more
than `room` lists are open and the innermost one is not closed at once, and at the end no list may be
open. -/
def outcome [CallStack] (room : Nat) (allow : Nat → Except ReadFault Unit) (level : Nat)
    (nodes : List Node) : Except ReadFault Unit :=
  if room < level ∧ Cursor.atClose ⟨nodes, level⟩ = false then
    .error (.grammar (Reader.starvation ⟨nodes, level⟩))
  else
    match nodes with
    | [] => if level = 0 then .ok () else .error (.grammar .unexpectedEnd)
    | node :: rest => visit allow level node >>= fun level => outcome room allow level rest

/-! ### One node -/

section Steps

variable (allow : Nat → Except ReadFault Unit) (level : Nat)

theorem step_atom {token : Token} (h : token.IsAtom) : step level (.leaf token) = level := by
  rw [step, h.isLiteral, h.isLiteral]
  rfl

theorem step_le (node : Node) : step level node ≤ level + 1 := by
  unfold step
  split
  · exact Nat.le_refl _
  · split <;> omega

/-- Only a `(` makes the number greater. -/
theorem step_le_of_not_open {node : Node} (h : node.isLiteral "(" = false) :
    step level node ≤ level := by
  rw [step, if_neg (by simp [h])]
  split <;> omega

theorem visit_of_open {node : Node} (h : node.isLiteral "(" = true) :
    visit allow level node = allow (level + 1) >>= fun _ => .ok (step level node) := by
  rw [visit, if_pos h]
  rfl

theorem visit_of_not_open {node : Node} (h : node.isLiteral "(" = false) :
    visit allow level node = .ok (step level node) := by
  rw [visit, if_neg (by simp [h])]
  rfl

theorem eq_step_of_visit {node : Node} {last : Nat} (h : visit allow level node = .ok last) :
    last = step level node := by
  cases ho : node.isLiteral "(" with
  | false =>
    rw [visit_of_not_open allow level ho] at h
    exact (Except.ok.inj h).symm
  | true =>
    rw [visit_of_open allow level ho] at h
    cases ha : allow (level + 1) with
    | ok =>
      rw [ha] at h
      exact (Except.ok.inj h).symm
    | error fault =>
      rw [ha] at h
      cases h

/-- Only a list that is not admitted stops the count at a node. -/
theorem allow_eq_error_of_visit {node : Node} {fault : ReadFault}
    (h : visit allow level node = .error fault) : allow (level + 1) = .error fault := by
  cases ho : node.isLiteral "(" with
  | false =>
    rw [visit_of_not_open allow level ho] at h
    cases h
  | true =>
    rw [visit_of_open allow level ho] at h
    cases ha : allow (level + 1) with
    | ok =>
      rw [ha] at h
      cases h
    | error fault' =>
      rw [ha] at h
      exact congrArg _ (Except.error.inj h)

variable [CallStack] {room : Nat}

theorem outcome_of_starving {level : Nat} {nodes : List Node} (h : room < level)
    (hc : Cursor.atClose ⟨nodes, level⟩ = false) :
    outcome room allow level nodes = .error (.grammar (Reader.starvation ⟨nodes, level⟩)) := by
  unfold outcome
  exact if_pos ⟨h, hc⟩

theorem outcome_nil {level : Nat} (h : level ≤ room) :
    outcome room allow level [] =
      if level = 0 then .ok () else .error (.grammar .unexpectedEnd) := by
  rw [outcome, if_neg fun hs => Nat.not_lt_of_le h hs.1]

theorem outcome_cons {level : Nat} {node : Node} (h : level ≤ room ∨ node.isLiteral ")" = true)
    (rest : List Node) :
    outcome room allow level (node :: rest) =
      visit allow level node >>= fun level => outcome room allow level rest := by
  rw [outcome, if_neg]
  rintro ⟨hr, hc⟩
  rcases h with hle | hclose
  · exact Nat.not_lt_of_le hle hr
  · exact absurd (hclose.symm.trans hc) (by decide)

theorem outcome_openParen {level : Nat} (h : level ≤ room) (rest : List Node) :
    outcome room allow level (.leaf .openParen :: rest) =
      allow (level + 1) >>= fun _ => outcome room allow (level + 1) rest := by
  rw [outcome_cons allow (Or.inl h), visit_of_open allow level (by decide)]
  cases allow (level + 1) <;> rfl

theorem outcome_closeParen (rest : List Node) :
    outcome room allow level (.leaf .closeParen :: rest) = outcome room allow (level - 1) rest := by
  rw [outcome_cons allow (Or.inr rfl), visit_of_not_open allow level (by decide)]
  rfl

theorem outcome_atom {level : Nat} (h : level ≤ room) {token : Token} (ht : token.IsAtom)
    (rest : List Node) :
    outcome room allow level (.leaf token :: rest) = outcome room allow level rest := by
  rw [outcome_cons allow (Or.inl h), visit_of_not_open allow level (ht.isLiteral _),
    step_atom level ht]
  rfl

end Steps

/-! ### The greatest number -/

theorem le_peak (level : Nat) (nodes : List Node) : level ≤ peak level nodes := by
  cases nodes with
  | nil => exact Nat.le_refl _
  | cons node rest => exact Nat.le_max_left _ _

theorem isGreatest_peak (level : Nat) (nodes : List Node) :
    IsGreatest (Set.range fun m => after level (nodes.take m)) (peak level nodes) := by
  induction nodes generalizing level with
  | nil =>
    refine ⟨⟨0, rfl⟩, ?_⟩
    rintro _ ⟨m, rfl⟩
    show after level (List.take m []) ≤ level
    rw [List.take_nil]
    exact Nat.le_refl _
  | cons node rest ih =>
    obtain ⟨⟨m, hm⟩, hbound⟩ := ih (step level node)
    constructor
    · rcases Nat.le_total level (peak (step level node) rest) with h | h
      · exact ⟨m + 1, by rw [peak, Nat.max_eq_right h]; exact hm⟩
      · exact ⟨0, by rw [peak, Nat.max_eq_left h]; rfl⟩
    · rintro _ ⟨_ | m, rfl⟩
      · exact le_peak level _
      · exact Nat.le_trans (hbound ⟨m, rfl⟩) (Nat.le_max_right _ _)

/-! ### Limits -/

theorem any_lt_zero (limit : Option Nat) : limit.any (· < 0) = false := by
  cases limit <;> simp

/-- A number that is not greater respects the limit as well. -/
theorem any_lt_eq_false_of_le {limit : Option Nat} {level level' : Nat}
    (hl : limit.any (· < level) = false)
    (h : level' ≤ level) : limit.any (· < level') = false := by
  cases limit with
  | none => rfl
  | some k =>
    simp only [Option.any_some, decide_eq_false_iff_not] at hl ⊢
    omega

section Limits

variable [CallStack] {limit : Option Nat} {room level : Nat} {node : Node} {nodes rest : List Node}

/-- For want of room the innermost list is not read on before what comes next.  A `)` is read
without any, and the end of the nodes may be noticed first. -/
def Starves : Option Node → Prop
  | none => CallStack.noticesEnd = false
  | some node => node.isLiteral ")" = false

/-- After some beginning of the nodes more lists are open than the limit lets in, or more than there is
room for while the innermost one is not closed at once. -/
def Exceeds (limit : Option Nat) (room level : Nat) (nodes : List Node) : Prop :=
  ∃ m, limit.any (· < after level (nodes.take m)) = true ∨
    room < after level (nodes.take m) ∧ Starves nodes[m]?

theorem exceeds_nil (hl : limit.any (· < level) = false) :
    Exceeds limit room level [] ↔ room < level ∧ Starves none := by
  simp [Exceeds, after, hl]

theorem exceeds_cons (hl : limit.any (· < level) = false) :
    Exceeds limit room level (node :: rest) ↔
      room < level ∧ Starves (some node) ∨ Exceeds limit room (step level node) rest := by
  constructor
  · rintro ⟨_ | m, h⟩
    · exact Or.inl (h.resolve_left fun hm => absurd (hl.symm.trans hm) (by decide))
    · exact Or.inr ⟨m, h⟩
  · rintro (h | ⟨m, h⟩)
    · exact ⟨0, Or.inr h⟩
    · exact ⟨m + 1, h⟩

theorem exceeds_some_iff {k : Nat} :
    Exceeds (some k) room level nodes ↔ k < peak level nodes ∨ Exceeds none room level nodes := by
  obtain ⟨⟨m, hm⟩, hbound⟩ := isGreatest_peak level nodes
  constructor
  · rintro ⟨n, hn | hn⟩
    · exact Or.inl (Nat.lt_of_lt_of_le (by simpa using hn) (hbound ⟨n, rfl⟩))
    · exact Or.inr ⟨n, Or.inr hn⟩
  · rintro (hk | ⟨n, hn⟩)
    · exact ⟨m, Or.inl (by simpa [hm] using hk)⟩
    · exact ⟨n, Or.inr (hn.resolve_left (by simp))⟩

/-- The count stops where too many lists are open, and else only its end matters. -/
theorem outcome_upTo (hl : limit.any (· < level) = false) (nodes : List Node) :
    (Exceeds limit room level nodes → ∃ cause,
      outcome room (Tally.upTo limit) level nodes = .error (.grammar cause) ∧
        cause.message = "max nesting depth exceeded") ∧
    (¬ Exceeds limit room level nodes →
      outcome room (Tally.upTo limit) level nodes =
        if after level nodes = 0 then .ok () else .error (.grammar .unexpectedEnd)) := by
  induction nodes generalizing level with
  | nil =>
    rw [exceeds_nil hl]
    by_cases hr : room < level
    · rw [outcome_of_starving _ hr rfl, Reader.starvation]
      cases hn : CallStack.noticesEnd with
      | true =>
        refine ⟨fun h => absurd (hn.symm.trans h.2) (by decide), fun _ => ?_⟩
        exact (if_neg (Nat.ne_of_gt (Nat.zero_lt_of_lt hr))).symm
      | false => exact ⟨fun _ => ⟨.overCap, rfl, rfl⟩, fun h => absurd ⟨hr, hn⟩ h⟩
    · rw [outcome_nil _ (Nat.le_of_not_lt hr)]
      exact ⟨fun h => absurd h.1 hr, fun _ => rfl⟩
  | cons node rest ih =>
    rw [exceeds_cons hl]
    by_cases hs : room < level ∧ Starves (some node)
    · have hc : Cursor.atClose ⟨node :: rest, level⟩ = false := hs.2
      rw [outcome_of_starving _ hs.1 hc, Reader.starvation_cons]
      exact ⟨fun _ => ⟨.overCap, rfl, rfl⟩, fun h => absurd (Or.inl hs) h⟩
    have hreads : level ≤ room ∨ node.isLiteral ")" = true := by
      rw [Classical.not_and_iff_not_or_not] at hs
      exact hs.imp Nat.le_of_not_lt Bool.eq_true_of_not_eq_false
    rw [outcome_cons _ hreads, or_iff_right hs]
    by_cases ho : node.isLiteral "(" = true
    · have hstep : step level node = level + 1 := by rw [step, if_pos ho]
      rw [visit_of_open _ level ho, Tally.upTo, ← hstep]
      cases hl' : limit.any (· < step level node) with
      | true =>
        exact ⟨fun _ => ⟨.tooDeep, rfl, rfl⟩, fun h => absurd ⟨0, Or.inl hl'⟩ h⟩
      | false => exact ih hl'
    · have ho' : node.isLiteral "(" = false := by simpa using ho
      rw [visit_of_not_open _ level ho']
      exact ih (any_lt_eq_false_of_le hl (step_le_of_not_open level ho'))

end Limits

end OpenLists

namespace Reader

section Machine

variable [CallStack] {settings : Settings} {cap room level : Nat} {item : Item}

/-- What the count comes to, by the settings and with room to read on inside of `cap` lists. -/
def countOpen (settings : Settings) (cap level : Nat) (nodes : List Node) :
    Except ReadFault Unit :=
  OpenLists.outcome cap (Tally.admitted settings) level nodes

theorem countOpen_closeParen (settings : Settings) (cap level : Nat) (rest : List Node) :
    countOpen settings cap level (.leaf .closeParen :: rest) =
      countOpen settings cap (level - 1) rest :=
  OpenLists.outcome_closeParen _ _ _

/-- Reading a list in as many lists as there are open comes to what the count comes to. -/
def CountsList (settings : Settings) (cap : Nat) (list : Reader Node) (room : Nat) : Prop :=
  ∀ (level : Nat) (rest : List Node), level + room = cap → Cursor.IsScannable ⟨rest, level⟩ →
    conclude (list ⟨.leaf .openParen :: rest, level⟩)
        (fun _ later => countOpen settings cap level later.rest) =
      countOpen settings cap level (.leaf .openParen :: rest)

/-- What the count needs to know about the reader of the expressions in a list. -/
structure CountsItem (settings : Settings) (cap : Nat) (item : Item) (room : Nat) : Prop
    extends TakesSingles item where
  list : CountsList settings cap item.read room

theorem countsItem_exprOf {list : Reader Node} (hl : Lossless list)
    (h : CountsList settings cap list room) (hc : Consumes (exprOf list)) :
    CountsItem settings cap ⟨exprOf list, hc⟩ room where
  toTakesSingles := takesSingles_exprOf hl hc
  list := by
    intro level rest hroom hs
    show conclude (exprOf list _) _ = _
    rw [exprOf_of_open list (by decide), conclude_bind]
    exact h level rest hroom hs

/-- An expression is taken, and the count goes on behind it; a `)` is one only outside of all
lists. -/
theorem CountsItem.conclude_read (hi : CountsItem settings cap item room)
    (hroom : level + room = cap) {node : Node} {rest : List Node}
    (hs : Cursor.IsScannable ⟨node :: rest, level⟩)
    (hc : node.isLiteral ")" = true → level = 0) :
    conclude (item.read ⟨node :: rest, level⟩)
        (fun _ later => countOpen settings cap level later.rest) =
      countOpen settings cap level (node :: rest) := by
  rcases hs.head with ⟨token, ha, rfl⟩ | rfl | rfl
  · obtain ⟨expr, hr⟩ := hi.single (Or.inl ha) rest level
    rw [hr, countOpen, OpenLists.outcome_atom _ (Nat.le_of_add_right_le (Nat.le_of_eq hroom)) ha]
    rfl
  · exact hi.list level rest hroom (hs.of_cons _)
  · obtain ⟨expr, hr⟩ := hi.single (Or.inr rfl) rest level
    rw [hr, hc (by decide), countOpen_closeParen]
    rfl

/-- The loop of a flat sequence goes on as the count does, up to the `)` that ends the list. -/
theorem conclude_flatFrom (hi : CountsItem settings cap item room) (hroom : level + 1 + room = cap)
    {then' : Node → Reader Node}
    (hend : ∀ node rest, conclude (then' node ⟨.leaf .closeParen :: rest, level + 1⟩)
      (fun _ later => countOpen settings cap level later.rest) = countOpen settings cap level rest)
    (found : List Node) {cursor : Cursor} (hd : cursor.depth = level + 1)
    (hs : cursor.IsScannable) :
    conclude ((flatFrom item found >>= then') cursor)
        (fun _ later => countOpen settings cap level later.rest) =
      countOpen settings cap (level + 1) cursor.rest := by
  induction hn : cursor.rest.length using Nat.strongRecOn generalizing found cursor with
  | ind n ih =>
    cases hc : cursor.atClose with
    | true =>
      obtain ⟨rest, he⟩ := Cursor.eq_of_atClose hc
      rw [bind_of_ok (flatFrom_of_atClose item found hc), he, hd, hend]
      exact (countOpen_closeParen settings cap (level + 1) rest).symm
    | false =>
      rw [bind_congr_left (flatFrom_of_not_atClose item found hc), bind_assoc, conclude_bind]
      obtain ⟨_ | ⟨next, rest⟩, depth⟩ := cursor
      · rw [hi.nil, countOpen, OpenLists.outcome_nil _ (Nat.le_of_add_right_le (Nat.le_of_eq hroom))]
        rfl
      subst hd
      rw [← hi.conclude_read hroom hs fun h => absurd (hc.symm.trans h) (by decide)]
      refine conclude_congr fun node later hr => ?_
      obtain ⟨taken, -, hd', -⟩ := hi.lossless hr
      exact ih _ (hn ▸ item.consumes hr) (node :: found) hd' (hs.of_takes hi.lossless hr) rfl

/-- A list is ended by the `)` behind its body. -/
theorem conclude_close (g : Node → Node) (rest : List Node) (depth : Nat) :
    conclude ((close settings >>= fun closer => pure (g closer))
        ⟨.leaf .closeParen :: rest, depth⟩)
        (fun _ later => countOpen settings cap level later.rest) =
      countOpen settings cap level rest := by
  rw [bind_of_ok (close_of_isClose (by decide) rest depth)]
  rfl

/-- A list that is closed at once is ended, whatever reads expressions. -/
theorem conclude_listRest_of_atClose (hf : settings.flat = true) (item : Item) (opener : Node)
    {rest : List Node} (hc : Cursor.atClose ⟨rest, level + 1⟩ = true) :
    conclude (listRest settings item opener ⟨rest, level + 1⟩)
        (fun _ later => countOpen settings cap level later.rest) =
      countOpen settings cap (level + 1) rest := by
  obtain ⟨rest', he⟩ := Cursor.eq_of_atClose hc
  cases he
  rw [listRest, bind_of_ok (body_of_atClose item hf hc), conclude_close, countOpen_closeParen]
  rfl

theorem conclude_listRest (hf : settings.flat = true) (hi : CountsItem settings cap item room)
    (hroom : level + 1 + room = cap) (opener : Node) {rest : List Node}
    (hs : Cursor.IsScannable ⟨rest, level + 1⟩) :
    conclude (listRest settings item opener ⟨rest, level + 1⟩)
        (fun _ later => countOpen settings cap level later.rest) =
      countOpen settings cap (level + 1) rest := by
  cases hc : Cursor.atClose ⟨rest, level + 1⟩ with
  | true => exact conclude_listRest_of_atClose hf item opener hc
  | false =>
    have hseq : flatSeq item ⟨rest, level + 1⟩ = flatFrom item [] ⟨rest, level + 1⟩ :=
      (flatFrom_of_not_atClose item [] hc).symm
    rw [listRest, bind_congr_left (body_of_not_atClose item hf hc), bind_assoc,
      bind_congr_left hseq]
    refine conclude_flatFrom hi hroom (fun node rest => ?_) [] rfl hs
    exact conclude_close _ rest (level + 1)

/-- Where there is no room for an expression, a list that is not closed at once stops the count. -/
theorem conclude_listRest_starved (hf : settings.flat = true) (hlevel : cap < level + 1)
    (opener : Node) (rest : List Node) :
    conclude (listRest settings ⟨starved, consumes_starved⟩ opener ⟨rest, level + 1⟩)
        (fun _ later => countOpen settings cap level later.rest) =
      countOpen settings cap (level + 1) rest := by
  cases hc : Cursor.atClose ⟨rest, level + 1⟩ with
  | true => exact conclude_listRest_of_atClose hf _ opener hc
  | false =>
    have hstop : flatSeq ⟨starved, consumes_starved⟩ ⟨rest, level + 1⟩ =
        .error (.grammar (starvation ⟨rest, level + 1⟩)) ⟨rest, level + 1⟩ :=
      bind_of_error (starved_eq _)
    rw [countOpen, OpenLists.outcome_of_starving _ hlevel hc, listRest,
      bind_congr_left (body_of_not_atClose _ hf hc), bind_of_error (bind_of_error hstop)]
    rfl

theorem conclude_listOf {rest : List Node} (hlevel : level ≤ cap)
    (h : conclude (listRest settings item (.leaf .openParen) ⟨rest, level + 1⟩)
        (fun _ later => countOpen settings cap level later.rest) =
      countOpen settings cap (level + 1) rest) :
    conclude (listOf settings item ⟨.leaf .openParen :: rest, level⟩)
        (fun _ later => countOpen settings cap level later.rest) =
      countOpen settings cap level (.leaf .openParen :: rest) := by
  rw [listOf_eq_nested settings item (by decide), conclude_nested _ _ _ (countOpen settings cap level),
    bind_of_ok (advance_cons _ _ _), h]
  exact (OpenLists.outcome_openParen _ hlevel _).symm

theorem countsList_listWithin (hf : settings.flat = true) :
    ∀ room, CountsList settings cap (listWithin settings room).read room
  | 0, level, rest, hroom, _ =>
    conclude_listOf (Nat.le_of_eq hroom) (conclude_listRest_starved hf (by omega) _ rest)
  | room + 1, level, rest, hroom, hs =>
    conclude_listOf (by omega) (conclude_listRest hf
      (countsItem_exprOf (lossless_listWithin settings room) (countsList_listWithin hf room) _)
      (by omega) _ fun node hn => hs node hn)

theorem conclude_program_flat (hf : settings.flat = true) {nodes : List Node}
    (hs : Cursor.IsScannable ⟨nodes, 0⟩) :
    conclude (program settings ⟨nodes, 0⟩) (fun _ _ => .ok ()) =
      countOpen settings CallStack.room 0 nodes := by
  have hi : CountsItem settings CallStack.room (expr settings) CallStack.room :=
    countsItem_exprOf (lossless_list settings) (countsList_listWithin hf CallStack.room) _
  refine conclude_programFrom hi.lossless (OpenLists.outcome_nil _ (Nat.zero_le _)) ?_ [] rfl hs
  exact fun hs => hi.conclude_read (Nat.zero_add _) hs fun _ => rfl

end Machine

end Reader

/-! ### Programs -/

/-- The settings with flat sequences, with a number as the limit if there is one. -/
def Settings.flatOfLimit (checkClose : Bool) (limit : Option Nat) : Settings :=
  { Settings.ofLimit checkClose limit with flat := true }

namespace Program

section Bounded

variable [CallStack] {options : Options} {checkClose : Bool} {limit : Option Nat} {nodes : List Node}

/-- Whether nodes are read, and the fault if they are not, is what the count comes to. -/
theorem map_read_eq_countOpen {settings : Settings} (ho : options.settings = .ok settings)
    (hf : settings.flat = true) (hs : Cursor.IsScannable ⟨nodes, 0⟩) :
    (read nodes options).map (fun _ => ()) = Reader.countOpen settings CallStack.room 0 nodes :=
  (map_read_eq_conclude ho nodes).trans (Reader.conclude_program_flat hf hs)

theorem map_read_eq_outcome (ho : options.settings = .ok (.flatOfLimit checkClose limit))
    (hs : Cursor.IsScannable ⟨nodes, 0⟩) :
    (read nodes options).map (fun _ => ()) =
      OpenLists.outcome CallStack.room (Tally.upTo limit) 0 nodes := by
  have hallow : Tally.admitted (.flatOfLimit checkClose limit) = Tally.upTo limit :=
    Tally.admitted_ofLimit checkClose limit
  rw [← hallow]
  exact map_read_eq_countOpen ho rfl hs

theorem read_of_exceeds (ho : options.settings = .ok (.flatOfLimit checkClose limit))
    (hs : Cursor.IsScannable ⟨nodes, 0⟩) (h : OpenLists.Exceeds limit CallStack.room 0 nodes) :
    ∃ cause, read nodes options = .error (.grammar cause) ∧
      cause.message = "max nesting depth exceeded" := by
  obtain ⟨hstops, -⟩ :=
    @OpenLists.outcome_upTo _ limit CallStack.room 0 (OpenLists.any_lt_zero limit) nodes
  obtain ⟨cause, hcause, hm⟩ := hstops h
  exact ⟨cause, read_eq_error_of_map_eq_error ((map_read_eq_outcome ho hs).trans hcause), hm⟩

theorem map_read_of_not_exceeds (ho : options.settings = .ok (.flatOfLimit checkClose limit))
    (hs : Cursor.IsScannable ⟨nodes, 0⟩) (h : ¬ OpenLists.Exceeds limit CallStack.room 0 nodes) :
    (read nodes options).map (fun _ => ()) =
      if OpenLists.after 0 nodes = 0 then .ok () else .error (.grammar .unexpectedEnd) := by
  obtain ⟨-, hends⟩ :=
    @OpenLists.outcome_upTo _ limit CallStack.room 0 (OpenLists.any_lt_zero limit) nodes
  exact (map_read_eq_outcome ho hs).trans (hends h)

/-- Nodes are read if there are never too many open lists, and none at the end. -/
theorem exists_read_flat_iff (ho : options.settings = .ok (.flatOfLimit checkClose limit))
    (hs : Cursor.IsScannable ⟨nodes, 0⟩) :
    (∃ tree, read nodes options = .ok tree) ↔
      ¬ OpenLists.Exceeds limit CallStack.room 0 nodes ∧ OpenLists.after 0 nodes = 0 := by
  constructor
  · rintro ⟨tree, hr⟩
    have hne : ¬ OpenLists.Exceeds limit CallStack.room 0 nodes := by
      intro h
      obtain ⟨cause, hcause, -⟩ := read_of_exceeds ho hs h
      cases hr.symm.trans hcause
    refine ⟨hne, ?_⟩
    have hend := map_read_of_not_exceeds ho hs hne
    rw [hr] at hend
    split at hend
    · assumption
    · cases hend
  · rintro ⟨hne, hz⟩
    exact exists_read_of_map_eq_ok ((map_read_of_not_exceeds ho hs hne).trans (if_pos hz))

/-- The greatest number of open lists is the nesting of the tree that is read. -/
theorem nesting_eq_peak (ho : options.settings = .ok (.flatOfLimit checkClose limit))
    {tokens : List Token} (hs : ∀ token ∈ tokens, token.IsScannable) {tree : Node}
    (hr : read (tokens.map .leaf) options = .ok tree) :
    tree.nesting = OpenLists.peak 0 (tokens.map .leaf) := by
  have hscan : Cursor.IsScannable ⟨tokens.map .leaf, 0⟩ := Cursor.isScannable_map_leaf hs 0
  have ready : ∀ limit, Options.settings (.ready (.flatOfLimit checkClose limit)) =
      .ok (.flatOfLimit checkClose limit) := fun _ => rfl
  obtain ⟨hfree, -⟩ := (read_eq_ok_iff_admits ho (ready none)).1 hr
  obtain ⟨hne, hz⟩ := (exists_read_flat_iff (ready none) hscan).1 ⟨tree, hfree⟩
  -- the limits that admit the tree are those that the number of open lists respects
  refine eq_of_forall_ge_iff fun k => ?_
  have hadmits : read (tokens.map .leaf) (.ready (.flatOfLimit checkClose (some k))) = .ok tree ↔
      tree.nesting ≤ k := by
    rw [read_eq_ok_iff_admits (ready (some k)) (ready none), Settings.admits_int_iff rfl]
    exact and_iff_right hfree
  have hcount := exists_read_flat_iff (ready (some k)) hscan
  rw [OpenLists.exceeds_some_iff, or_iff_left hne, Nat.not_lt, and_iff_left hz] at hcount
  rw [← hadmits, ← hcount]
  constructor
  · exact fun h => ⟨tree, h⟩
  · rintro ⟨tree', h'⟩
    obtain ⟨hfree', -⟩ := (read_eq_ok_iff_admits (ready (some k)) (ready none)).1 h'
    cases hfree.symm.trans hfree'
    exact h'

/-- With flat sequences the tokens of a text come to what the number of open lists says after each
beginning of them: if it is too great somewhere for the limit, or for the stack of calls before
something other than a `)`, lists nest too deep; else, if it is not zero at the end, a token is missing;
and else there is a tree, in which as many lists nest as are open at once. -/
theorem outcome_of_read_flat {text : String} {tokens : List Token}
    (h : Token.scan text = .ok tokens) (checkClose : Bool) (limit : Option Nat) {options : Options}
    (ho : options.settings = .ok (.flatOfLimit checkClose limit)) :
    let nodes := tokens.map Node.leaf
    let level := fun m => OpenLists.after 0 (nodes.take m)
    let exceeds := ∃ m, limit.any (· < level m) = true ∨
      CallStack.room < level m ∧ OpenLists.Starves nodes[m]?
    (exceeds → ∃ cause, read nodes options = .error (.grammar cause) ∧
      cause.message = "max nesting depth exceeded") ∧
    (¬ exceeds → 0 < OpenLists.after 0 nodes → ∃ cause,
      read nodes options = .error (.grammar cause) ∧ cause.message = "unexpected end of input") ∧
    (¬ exceeds → OpenLists.after 0 nodes = 0 → ∃ tree, read nodes options = .ok tree ∧
      IsGreatest (Set.range level) tree.nesting) := by
  intro nodes level exceeds
  have hs : Cursor.IsScannable ⟨nodes, 0⟩ :=
    Cursor.isScannable_map_leaf (Token.isScannable_of_scan h) 0
  refine ⟨read_of_exceeds ho hs, fun he hz => ?_, fun he hz => ?_⟩
  · have hend := (map_read_of_not_exceeds ho hs he).trans (if_neg (Nat.ne_of_gt hz))
    exact ⟨_, read_eq_error_of_map_eq_error hend, rfl⟩
  · obtain ⟨tree, hr⟩ := (exists_read_flat_iff ho hs).2 ⟨he, hz⟩
    refine ⟨tree, hr, ?_⟩
    rw [nesting_eq_peak ho (Token.isScannable_of_scan h) hr]
    exact OpenLists.isGreatest_peak 0 nodes

end Bounded

/-- In `(a (b)))` two lists are open at once and the last `)` ends none, so the text is read under a
limit of two lists and not under a limit of one. -/
theorem outcome_of_read_flat_stray :
    let tokens : List Token :=
      [.openParen, ⟨.identifier, "a"⟩, .openParen, ⟨.identifier, "b"⟩, .closeParen, .closeParen,
        .closeParen]
    let nodes := tokens.map Node.leaf
    let one : Options := .loose (.object [("flat_seq", .bool true), ("max_depth", .int 1)])
    let two : Options := .loose (.object [("flat_seq", .bool true), ("max_depth", .int 2)])
    Token.scan "(a (b)))" = .ok tokens ∧
      (∃ cause, read nodes one = .error (.grammar cause) ∧
        cause.message = "max nesting depth exceeded") ∧
      ∃ tree, read nodes two = .ok tree ∧
        IsGreatest (Set.range fun m => OpenLists.after 0 (nodes.take m)) tree.nesting := by
  intro tokens nodes one two
  have hscan : Token.scan "(a (b)))" = .ok tokens := eq_ok_of_toOption (by decide +kernel)
  have hone : one.settings = .ok (.flatOfLimit false (some 1)) := rfl
  have htwo : two.settings = .ok (.flatOfLimit false (some 2)) := rfl
  obtain ⟨hstops, -, -⟩ := outcome_of_read_flat hscan false (some 1) hone
  obtain ⟨-, -, hends⟩ := outcome_of_read_flat hscan false (some 2) htwo
  refine ⟨hscan, hstops ⟨3, Or.inl (by decide)⟩, hends ?_ (by decide)⟩
  rintro ⟨m, hm⟩
  have hle : OpenLists.after 0 (nodes.take m) ≤ 2 := (OpenLists.isGreatest_peak 0 nodes).2 ⟨m, rfl⟩
  rcases hm with hm | ⟨hm, -⟩
  · exact absurd (of_decide_eq_true hm) (Nat.not_lt_of_le hle)
  · exact absurd (Nat.lt_of_lt_of_le hm hle) (by decide)

end Program

end SexprReader
