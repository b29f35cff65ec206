import SexprReader.Proofs.Runs

/-!
# Chained sequences by recursion

`chainSeq` keeps the sequences that wait for a nested one in a list.  This file shows that it reads
what a recursive reader would.  What a waiting sequence does with a finished one is a reader again
(`resume`), and reading inside waiting sequences is reading outside of them, followed by what they
do with the result (`chainFrom_eq_bind_resume`).  So `chainSeq` satisfies an equation in which it
calls itself at most twice (`chainSeq_eq`).

The rule of the grammar is the recursive reader `ruleSeq`: an expression, and then, as long as the
next node does not end sequences, a nested sequence, and one more if a `(` follows it.  Its loop is
left after one turn, because a sequence that is finished stands before a node that ends sequences
(`endsSeq_of_chainSeq`); so the rule and `chainSeq` are the same reader (`ruleSeq_eq_chainSeq`), and
lists may be read with the one or with the other (`ruleList_eq`).  The rule is given as a fixed point
that stops where it would call itself without end; it never does, and has its equations without that
(`ruleSeq_eq`, `ruleTail_eq`).
-/

namespace SexprReader

namespace Reader

variable {α β : Type}

/-! ### Waiting sequences -/

/-- What waiting sequences do with the nested one that `done` finishes. -/
def resume (item : Item) : List Pending → Node → Reader Node
  | [], done => return done
  | .awaitsNested head :: outer, done => do
    if (← peek).isLiteral "(" then
      let extra ← chainSeq item
      resume item outer (.tree .seq [head, done, extra])
    else resume item outer (.tree .seq [head, done])
  | .awaitsExtra head nested :: outer, done => resume item outer (.tree .seq [head, nested, done])

theorem resume_append (item : Item) (inner outer : List Pending) (done : Node) :
    resume item (inner ++ outer) done = resume item inner done >>= resume item outer := by
  induction inner generalizing done with
  | nil => rw [List.nil_append, resume, pure_bind]
  | cons pending inner ih =>
    cases pending with
    | awaitsNested head =>
      rw [List.cons_append, resume, resume, bind_assoc]
      refine congrArg (peek >>= ·) (funext fun next => ?_)
      split
      · rw [bind_assoc]
        exact congrArg (chainSeq item >>= ·) (funext fun extra => ih _)
      · exact ih _
    | awaitsExtra head nested =>
      rw [List.cons_append, resume, resume]
      exact ih _

/-- Where the next node ends sequences, `finish` decides what waiting sequences do.  The hypothesis
is about the cursors behind that node. -/
theorem resume_of_endsSeq (item : Item) {next : Node} {rest : List Node} {depth : Nat}
    (hc : ∀ head outer later, later.rest.length < rest.length + 1 →
      chainFrom item head outer later = (chainFrom item head [] >>= resume item outer) later)
    (outer : List Pending) (done : Node) :
    resume item outer done ⟨next :: rest, depth⟩ =
      match finish (next.isLiteral "(") done outer with
      | .inl node => .ok node ⟨next :: rest, depth⟩
      | .inr outer => (item.read >>= fun head => chainFrom item head outer) ⟨next :: rest, depth⟩ := by
  induction outer generalizing done with
  | nil => rfl
  | cons pending outer ih =>
    cases pending with
    | awaitsNested head =>
      rw [resume, peek_bind_cons, finish]
      split
      · -- the extra sequence starts at this node
        rw [chainSeq, bind_assoc]
        refine bind_congr_at fun head' later hr => ?_
        rw [hc head' (.awaitsExtra head done :: outer) later (item.consumes hr)]
        rfl
      · exact ih _
    | awaitsExtra head nested =>
      rw [resume, finish]
      exact ih _

/-- Reading inside waiting sequences is reading outside of them, and then what they do with the
result. -/
theorem chainFrom_eq_bind_resume (item : Item) (head : Node) (outer : List Pending)
    (cursor : Cursor) :
    chainFrom item head outer cursor = (chainFrom item head [] >>= resume item outer) cursor := by
  induction hn : cursor.rest.length using Nat.strongRecOn generalizing head outer cursor with
  | ind n ih =>
    obtain ⟨rest, depth⟩ := cursor
    rcases rest with _ | ⟨next, rest⟩
    · rw [chainFrom_of_nil item head outer rfl, bind_of_error (chainFrom_of_nil item head [] rfl)]
    have hc : ∀ head outer later, later.rest.length < rest.length + 1 →
        chainFrom item head outer later = (chainFrom item head [] >>= resume item outer) later :=
      fun head outer later hl => ih _ (hn ▸ hl) head outer later rfl
    by_cases he : next.endsSeq = true
    · have hs : settle next head [] = .inl (.tree .seq [head]) := by rw [settle, if_pos he, finish]
      rw [bind_of_ok (chainFrom_of_inl item rfl hs), resume_of_endsSeq item hc]
      have ho : settle next head outer = finish (next.isLiteral "(") (.tree .seq [head]) outer := by
        rw [settle, if_pos he]
      cases hf : finish (next.isLiteral "(") (.tree .seq [head]) outer with
      | inl node => exact chainFrom_of_inl item rfl (ho.trans hf)
      | inr outer' => exact chainFrom_of_inr item rfl (ho.trans hf)
    · have hs : ∀ outer, settle next head outer = .inr (.awaitsNested head :: outer) := fun outer => by
        rw [settle, if_neg he]
      -- both sides read the next expression, and then the nested sequence from it on
      rw [chainFrom_of_inr item rfl (hs outer)]
      rw [bind_congr_left (chainFrom_of_inr item rfl (hs [])), bind_assoc]
      refine bind_congr_at fun head' later hi => ?_
      have hl := item.consumes hi
      rw [hc head' (.awaitsNested head :: outer) later hl,
        bind_congr_left (hc head' [.awaitsNested head] later hl), bind_assoc]
      exact bind_congr_at fun done last _ => by rw [← resume_append, List.singleton_append]

/-! ### The equation of a chained sequence -/

/-- What follows the first expression of a sequence, by recursion. -/
def chainTail (item : Item) (head : Node) : Reader Node := do
  if (← peek).endsSeq then return .tree .seq [head]
  else
    let nested ← chainSeq item
    if (← peek).isLiteral "(" then
      let extra ← chainSeq item
      return .tree .seq [head, nested, extra]
    else return .tree .seq [head, nested]

theorem chainFrom_nil_eq (item : Item) (head : Node) :
    chainFrom item head [] = chainTail item head := by
  funext ⟨rest, depth⟩
  rcases rest with _ | ⟨next, rest⟩
  · rw [chainFrom_of_nil item head [] rfl, chainTail, peek_bind_nil]
    rfl
  rw [chainTail, peek_bind_cons]
  split
  · rename_i he
    exact chainFrom_of_inl item rfl (by rw [settle, if_pos he, finish])
  · rename_i he
    rw [chainFrom_of_inr item rfl (by rw [settle, if_neg he]), chainSeq, bind_assoc]
    refine bind_congr_at fun head' later _ => ?_
    rw [chainFrom_eq_bind_resume]
    rfl

/-- A chained sequence is an expression, and sequences for what follows it, at most two. -/
theorem chainSeq_eq (item : Item) : chainSeq item = item.read >>= chainTail item :=
  congrArg (item.read >>= ·) (funext (chainFrom_nil_eq item))

/-- A sequence that is finished stands before a node that ends sequences. -/
theorem endsSeq_of_chainFrom {item : Item} {head node : Node} {outer : List Pending}
    {cursor last : Cursor} (h : chainFrom item head outer cursor = .ok node last) :
    ∃ next rest, last.rest = next :: rest ∧ next.endsSeq = true := by
  fun_induction chainFrom item head outer cursor with
  | case1 => cases h
  | case2 head outer cursor next rest hr done hs =>
    cases h
    by_cases he : next.endsSeq = true
    · exact ⟨next, rest, hr, he⟩
    · rw [settle, if_neg he] at hs
      cases hs
  | case3 => cases h
  | case4 _ _ _ _ _ _ _ _ _ _ _ ih => exact ih h

theorem endsSeq_of_chainSeq {item : Item} {node : Node} {cursor last : Cursor}
    (h : chainSeq item cursor = .ok node last) :
    ∃ next rest, last.rest = next :: rest ∧ next.endsSeq = true := by
  obtain ⟨head, later, -, hc⟩ := bind_eq_ok_iff.1 h
  exact endsSeq_of_chainFrom hc

/-! ### Runs that give a sequence -/

/-- `ChainRun item cursor node last` says that a chained sequence read at `cursor` is `node` and that
reading ends at `last`; one constructor for each number of sequences behind the first expression. -/
inductive ChainRun (item : Item) : Cursor → Node → Cursor → Prop
  | single {cursor last : Cursor} {head next : Node} {rest : List Node}
      (hi : item.read cursor = .ok head last) (hr : last.rest = next :: rest)
      (he : next.endsSeq = true) : ChainRun item cursor (.tree .seq [head]) last
  | nested {cursor later last : Cursor} {head next inner stop : Node} {rest rest' : List Node}
      (hi : item.read cursor = .ok head later) (hr : later.rest = next :: rest)
      (he : next.endsSeq = false) (hc : ChainRun item later inner last)
      (hs : last.rest = stop :: rest') (ho : stop.isLiteral "(" = false) :
      ChainRun item cursor (.tree .seq [head, inner]) last
  | extra {cursor later later' last : Cursor} {head next inner stop extra : Node}
      {rest rest' : List Node}
      (hi : item.read cursor = .ok head later) (hr : later.rest = next :: rest)
      (he : next.endsSeq = false) (hc : ChainRun item later inner later')
      (hs : later'.rest = stop :: rest') (ho : stop.isLiteral "(" = true)
      (hx : ChainRun item later' extra last) :
      ChainRun item cursor (.tree .seq [head, inner, extra]) last

theorem chainTail_of_endsSeq (item : Item) (head : Node) {next : Node} {cursor : Cursor}
    {rest : List Node} (hr : cursor.rest = next :: rest) (he : next.endsSeq = true) :
    chainTail item head cursor = .ok (.tree .seq [head]) cursor := by
  obtain ⟨_, depth⟩ := cursor
  cases hr
  rw [chainTail, peek_bind_cons, if_pos he]
  rfl

theorem chainTail_of_not_endsSeq (item : Item) (head : Node) {next : Node} {cursor : Cursor}
    {rest : List Node} (hr : cursor.rest = next :: rest) (he : next.endsSeq = false) :
    chainTail item head cursor =
      (chainSeq item >>= fun inner => do
        if (← peek).isLiteral "(" then
          let extra ← chainSeq item
          return .tree .seq [head, inner, extra]
        else return .tree .seq [head, inner]) cursor := by
  obtain ⟨_, depth⟩ := cursor
  cases hr
  rw [chainTail, peek_bind_cons, if_neg (by simp [he])]

theorem peek_bind_of_rest {next : Node → Reader β} {node : Node} {rest : List Node}
    {cursor : Cursor} (h : cursor.rest = node :: rest) :
    (peek >>= next) cursor = next node cursor := by
  obtain ⟨_, depth⟩ := cursor
  cases h
  exact peek_bind_cons next node rest depth

theorem ChainRun.chainSeq_eq_ok {item : Item} {cursor last : Cursor} {node : Node}
    (h : ChainRun item cursor node last) : chainSeq item cursor = .ok node last := by
  induction h with
  | single hi hr he => rw [chainSeq_eq, bind_of_ok hi, chainTail_of_endsSeq item _ hr he]
  | nested hi hr he _ hs ho ih =>
    rw [chainSeq_eq, bind_of_ok hi, chainTail_of_not_endsSeq item _ hr he, bind_of_ok ih,
      peek_bind_of_rest hs, if_neg (by simp [ho])]
    rfl
  | extra hi hr he _ hs ho _ ih ihx =>
    rw [chainSeq_eq, bind_of_ok hi, chainTail_of_not_endsSeq item _ hr he, bind_of_ok ih,
      peek_bind_of_rest hs, if_pos ho, bind_of_ok ihx]
    rfl

theorem chainRun_of_chainSeq {item : Item} {cursor last : Cursor} {node : Node}
    (h : chainSeq item cursor = .ok node last) : ChainRun item cursor node last := by
  induction hn : cursor.rest.length using Nat.strongRecOn generalizing cursor node last with
  | ind n ih =>
    rw [chainSeq_eq] at h
    obtain ⟨head, later, hi, ht⟩ := bind_eq_ok_iff.1 h
    have hl := hn ▸ item.consumes hi
    rcases hr : later.rest with _ | ⟨next, rest⟩
    · obtain ⟨_, depth⟩ := later
      cases hr
      rw [chainTail, peek_bind_nil] at ht
      cases ht
    by_cases he : next.endsSeq = true
    · rw [chainTail_of_endsSeq item head hr he] at ht
      cases ht
      exact .single hi hr he
    rw [Bool.not_eq_true] at he
    rw [chainTail_of_not_endsSeq item head hr he] at ht
    obtain ⟨inner, later', hc, ht⟩ := bind_eq_ok_iff.1 ht
    obtain ⟨stop, rest', hs, -⟩ := endsSeq_of_chainSeq hc
    rw [peek_bind_of_rest hs] at ht
    have hinner := ih _ hl hc rfl
    split at ht
    · rename_i ho
      obtain ⟨extra, last', hx, ht⟩ := bind_eq_ok_iff.1 ht
      cases ht
      exact .extra hi hr he hinner hs ho
        (ih _ (Nat.lt_trans (consumes_chainSeq item hc) hl) hx rfl)
    · rename_i ho
      cases ht
      exact .nested hi hr he hinner hs (by simpa using ho)

/-! ### Lists of chained sequences -/

/-- The result of a reader that ran one level deeper, with the level given back. -/
def leave : EStateM.Result ReadFault Cursor α → EStateM.Result ReadFault Cursor α
  | .ok a cursor => .ok a { cursor with depth := cursor.depth - 1 }
  | .error fault cursor => .error fault { cursor with depth := cursor.depth - 1 }

theorem nested_of_admitted {settings : Settings} {depth : Nat}
    (h : settings.exceeded (depth + 1) = .ok false) (inner : Reader α) (rest : List Node) :
    nested settings inner ⟨rest, depth⟩ = leave (inner ⟨rest, depth + 1⟩) := by
  simp only [nested, h]
  cases inner ⟨rest, depth + 1⟩ <;> rfl

theorem nested_of_error {settings : Settings} {depth : Nat} {cause : SettingsFault}
    (h : settings.exceeded (depth + 1) = .error cause) (inner : Reader α) (rest : List Node) :
    nested settings inner ⟨rest, depth⟩ = .error (.settings cause) ⟨rest, depth + 1⟩ := by
  simp only [nested, h, Faults.settings_eq]

theorem nested_of_exceeded {settings : Settings} {depth : Nat}
    (h : settings.exceeded (depth + 1) = .ok true) (inner : Reader α) (rest : List Node) :
    nested settings inner ⟨rest, depth⟩ = .error (.grammar .tooDeep) ⟨rest, depth + 1⟩ := by
  simp only [nested, h, Faults.grammar_eq]

theorem nested_eq_ok {settings : Settings} {inner : Reader α} {cursor later : Cursor} {a : α}
    (h : nested settings inner cursor = .ok a later) :
    settings.exceeded (cursor.depth + 1) = .ok false ∧
      ∃ last, inner ⟨cursor.rest, cursor.depth + 1⟩ = .ok a last ∧
        later = ⟨last.rest, last.depth - 1⟩ := by
  simp only [nested] at h
  split at h
  · cases h
  · cases h
  · rename_i he
    refine ⟨he, ?_⟩
    split at h
    · rename_i hi
      cases h
      exact ⟨_, hi, rfl⟩
    · cases h

theorem expectOpen_of_open {node : Node} (h : node.isLiteral "(" = true) (rest : List Node)
    (depth : Nat) : expectOpen ⟨node :: rest, depth⟩ = .ok () ⟨node :: rest, depth⟩ := by
  rw [expectOpen, peek_bind_cons, if_pos h]
  rfl

theorem body_eq (settings : Settings) (item : Item) (cursor : Cursor) :
    body settings item cursor =
      if settings.flat && cursor.atClose then .ok [] cursor
      else (seq settings item >>= fun node => pure [node]) cursor := by
  have hg : (get : Reader Cursor) cursor = .ok cursor cursor := rfl
  rw [body, bind_of_ok hg]
  split <;> rfl

theorem body_of_not_flat {settings : Settings} (h : settings.flat = false) (item : Item) :
    body settings item = chainSeq item >>= fun node => pure [node] := by
  funext cursor
  rw [body_eq, seq, h]
  rfl

/-- What a list holds behind its `(`: a sequence, and the node that ends it. -/
def chainList (settings : Settings) (item : Item) (opener : Node) : Reader Node := do
  let inner ← chainSeq item
  let closer ← close settings
  return .tree .list [opener, inner, closer]

theorem listOf_of_open {settings : Settings} (hf : settings.flat = false) (item : Item)
    {opener : Node} (ho : opener.isLiteral "(" = true) (rest : List Node) (depth : Nat) :
    listOf settings item ⟨opener :: rest, depth⟩ =
      nested settings (advance >>= chainList settings item) ⟨opener :: rest, depth⟩ := by
  rw [listOf, bind_of_ok (expectOpen_of_open ho rest depth)]
  refine congrFun (congrArg (nested settings) ?_) _
  refine congrArg (advance >>= ·) (funext fun opener => ?_)
  rw [body_of_not_flat hf, bind_assoc]
  rfl

/-- A list that the limit admits is what it holds, read one level deeper. -/
theorem listOf_of_admitted {settings : Settings} (hf : settings.flat = false) (item : Item)
    {opener : Node} (ho : opener.isLiteral "(" = true) (rest : List Node) {depth : Nat}
    (hd : settings.exceeded (depth + 1) = .ok false) :
    listOf settings item ⟨opener :: rest, depth⟩ =
      leave (chainList settings item opener ⟨rest, depth + 1⟩) := by
  rw [listOf_of_open hf item ho, nested_of_admitted hd, bind_of_ok (advance_cons opener rest _)]

/-- Without flat sequences each list holds an expression, so there has to be room for one. -/
theorem listOf_starved_ne_ok [CallStack] {settings : Settings} (hf : settings.flat = false)
    {opener node : Node} {rest : List Node} {depth : Nat} {later : Cursor}
    (ho : opener.isLiteral "(" = true) :
    listOf settings ⟨starved, consumes_starved⟩ ⟨opener :: rest, depth⟩ ≠ .ok node later := by
  intro h
  rw [listOf_of_open hf _ ho] at h
  obtain ⟨-, last, h, -⟩ := nested_eq_ok h
  rw [bind_of_ok (advance_cons opener rest _)] at h
  obtain ⟨body, later₁, hc, -⟩ := bind_eq_ok_iff.1 h
  obtain ⟨head, later₂, hi, -⟩ := bind_eq_ok_iff.1 hc
  cases (starved_eq _).symm.trans hi

/-! ### Readers that call themselves -/

/-- The readers, but none that starts where `limit` stands or before. -/
def behind (limit : Cursor) (reader : β → Reader α) (b : β) : Reader α := fun cursor =>
  if cursor.rest.length < limit.rest.length then reader b cursor
  else .error (.grammar .overCap) cursor

/-- The readers that `body` defines by calls of themselves.  A call before any node is taken would
never come back; it stops as lists that nest too deep do. -/
def fix (body : (β → Reader α) → β → Reader α) (b : β) : Reader α := fun cursor =>
  body (fun b later =>
    if _h : later.rest.length < cursor.rest.length then fix body b later
    else .error (.grammar .overCap) later) b cursor
termination_by cursor => cursor.rest.length

theorem fix_eq (body : (β → Reader α) → β → Reader α) (b : β) (cursor : Cursor) :
    fix body b cursor = body (behind cursor (fix body)) b cursor := by
  rw [fix]
  rfl

/-- Readers that satisfy the equation of `fix` are the ones it gives. -/
theorem eq_fix {body : (β → Reader α) → β → Reader α} {reader : β → Reader α}
    (h : ∀ b cursor, reader b cursor = body (behind cursor reader) b cursor) :
    reader = fix body := by
  funext b cursor
  induction hn : cursor.rest.length using Nat.strongRecOn generalizing b cursor with
  | ind n ih =>
    have hb : behind cursor reader = behind cursor (fix body) := by
      funext b later
      unfold behind
      split
      · rename_i hl
        exact ih _ (hn ▸ hl) b later rfl
      · rfl
    rw [h, fix_eq, hb]

/-! ### The rule of the grammar -/

/-- One turn of the loop of the rule, which goes on by `tail`: a nested sequence unless the next node
ends sequences, and one more if a `(` follows it. -/
def ruleTurn (seq : Reader Node) (tail : List Node → Reader Node) (found : List Node) :
    Reader Node := do
  if (← peek).endsSeq then return .tree .seq found
  else
    let nested ← seq
    if (← peek).isLiteral "(" then
      let extra ← seq
      tail (found ++ [nested, extra])
    else tail (found ++ [nested])

/-- The loop of the rule, behind the expression and the sequences that are found. -/
def ruleTail (seq : Reader Node) : List Node → Reader Node := fix (ruleTurn seq)

/-- Reads a sequence by the rule of the grammar: an expression, and then the sequences of the
loop. -/
def ruleSeq (item : Reader Node) : Reader Node :=
  fix (fun seq (_ : Unit) => do
    let head ← item
    ruleTail (seq ()) [head]) ()

theorem ruleTail_nil (seq : Reader Node) (found : List Node) (depth : Nat) :
    ruleTail seq found ⟨[], depth⟩ = .error (.grammar .unexpectedEnd) ⟨[], depth⟩ := by
  rw [ruleTail, fix_eq, ruleTurn, peek_bind_nil]

theorem ruleTail_of_endsSeq (seq : Reader Node) (found : List Node) {next : Node}
    (h : next.endsSeq = true) (rest : List Node) (depth : Nat) :
    ruleTail seq found ⟨next :: rest, depth⟩ = .ok (.tree .seq found) ⟨next :: rest, depth⟩ := by
  rw [ruleTail, fix_eq, ruleTurn, peek_bind_cons, if_pos h]
  rfl

/-- The loop stops behind a sequence that is finished. -/
theorem behind_ruleTail_of_chainSeq {item : Item} {node : Node} {cursor later : Cursor}
    (h : chainSeq item cursor = .ok node later) (seq : Reader Node) (found : List Node)
    (limit : Cursor) (hl : later.rest.length < limit.rest.length) :
    behind limit (ruleTail seq) found later = .ok (.tree .seq found) later := by
  obtain ⟨next, rest, hr, he⟩ := endsSeq_of_chainSeq h
  obtain ⟨rest', depth⟩ := later
  cases hr
  rw [behind, if_pos hl, ruleTail_of_endsSeq seq found he]

/-- The loop takes at most one turn, if its sequences are chained ones. -/
theorem ruleTail_eq_chainTail {item : Item} {seq : Reader Node} {cursor : Cursor}
    (hs : ∀ later, later.rest.length ≤ cursor.rest.length → seq later = chainSeq item later)
    (head : Node) : ruleTail seq [head] cursor = chainTail item head cursor := by
  obtain ⟨rest, depth⟩ := cursor
  rcases rest with _ | ⟨next, rest⟩
  · rw [ruleTail_nil, chainTail, peek_bind_nil]
  by_cases he : next.endsSeq = true
  · rw [ruleTail_of_endsSeq seq [head] he, chainTail, peek_bind_cons, if_pos he]
    rfl
  rw [ruleTail, fix_eq, ruleTurn, peek_bind_cons, chainTail, peek_bind_cons, if_neg he, if_neg he,
    bind_congr_left (hs _ (Nat.le_refl _))]
  refine bind_congr_at fun nested later hn => ?_
  have hl := consumes_chainSeq item hn
  obtain ⟨next', rest', hr, -⟩ := endsSeq_of_chainSeq hn
  obtain ⟨_, depth'⟩ := later
  cases hr
  rw [peek_bind_cons, peek_bind_cons]
  split
  · rw [bind_congr_left (hs _ (Nat.le_of_lt hl))]
    refine bind_congr_at fun extra last hx => ?_
    exact behind_ruleTail_of_chainSeq hx seq _ _ (Nat.lt_trans (consumes_chainSeq item hx) hl)
  · exact behind_ruleTail_of_chainSeq hn seq _ _ hl

theorem ruleSeq_eq_chainSeq (item : Item) : ruleSeq item.read = chainSeq item := by
  rw [ruleSeq]
  refine (congrFun (?_ : (fun _ : Unit => chainSeq item) = fix _) ()).symm
  refine eq_fix fun _ cursor => (congrFun (chainSeq_eq item) cursor).trans ?_
  refine bind_congr_at fun head later hr => (ruleTail_eq_chainTail (fun last hl => ?_) head).symm
  exact if_pos (Nat.lt_of_le_of_lt hl (item.consumes hr))

/-- The rule is what the grammar says: no call of it starts where it started itself. -/
theorem ruleSeq_eq (item : Item) :
    ruleSeq item.read = item.read >>= fun head => ruleTail (ruleSeq item.read) [head] := by
  rw [ruleSeq_eq_chainSeq, chainSeq_eq]
  refine congrArg (item.read >>= ·) (funext fun head => funext fun cursor => ?_)
  rw [← chainSeq_eq]
  exact (ruleTail_eq_chainTail (fun _ _ => rfl) head).symm

/-- The loop is its turn, followed by itself. -/
theorem ruleTail_eq {seq : Reader Node} (hc : Consumes seq) :
    ruleTail seq = ruleTurn seq (ruleTail seq) := by
  funext found ⟨rest, depth⟩
  rcases rest with _ | ⟨next, rest⟩
  · rw [ruleTail_nil, ruleTurn, peek_bind_nil]
  by_cases he : next.endsSeq = true
  · rw [ruleTail_of_endsSeq seq found he, ruleTurn, peek_bind_cons, if_pos he]
    rfl
  have hfix : ruleTail seq found ⟨next :: rest, depth⟩ =
      ruleTurn seq (behind ⟨next :: rest, depth⟩ (ruleTail seq)) found ⟨next :: rest, depth⟩ :=
    fix_eq _ _ _
  rw [hfix, ruleTurn, ruleTurn, peek_bind_cons, peek_bind_cons, if_neg he, if_neg he]
  -- a turn that goes on has taken a sequence, so the loop starts behind its cursor
  refine bind_congr_at fun nested later hn => ?_
  have hl := hc hn
  obtain ⟨rest', depth'⟩ := later
  rcases rest' with _ | ⟨next', rest'⟩
  · rw [peek_bind_nil, peek_bind_nil]
  rw [peek_bind_cons, peek_bind_cons]
  split
  · refine bind_congr_at fun extra last hx => ?_
    exact if_pos (Nat.lt_trans (hc hx) hl)
  · exact if_pos hl

/-! ### Lists by the rule -/

/-- Reads a list whose body is a sequence of such expressions by the rule. -/
def ruleListOf (settings : Settings) (item : Reader Node) : Reader Node := do
  expectOpen
  nested settings do
    let opener ← advance
    let body ← ruleSeq item
    let closer ← close settings
    return .tree .list [opener, body, closer]

theorem ruleListOf_eq {settings : Settings} (h : settings.flat = false) (item : Item) :
    ruleListOf settings item.read = listOf settings item := by
  rw [ruleListOf, listOf]
  refine congrArg (expectOpen >>= ·) (funext fun _ => congrArg (nested settings) ?_)
  refine congrArg (advance >>= ·) (funext fun opener => ?_)
  rw [body_of_not_flat h, bind_assoc]
  exact congrArg (· >>= _) (ruleSeq_eq_chainSeq item)

section Bounded

variable [CallStack]

/-- Reads a list by the rule, and so the lists in it, with room for the expressions in `room` more
lists. -/
def ruleList (settings : Settings) : Nat → Reader Node
  | 0 => ruleListOf settings starved
  | room + 1 => ruleListOf settings (exprOf (ruleList settings room))

theorem ruleList_eq {settings : Settings} (h : settings.flat = false) (room : Nat) :
    ruleList settings room = (listWithin settings room).read := by
  induction room with
  | zero => exact ruleListOf_eq h ⟨starved, consumes_starved⟩
  | succ room ih =>
    rw [ruleList, ih]
    exact ruleListOf_eq h ⟨exprOf (listWithin settings room).read, _⟩

/-- Without flat sequences the body of a list is read by the rule of the grammar: the reader that
keeps the waiting sequences in a list and the recursive one are the same, from every cursor, whether
they give a result or stop, and so are the lists inside. -/
theorem seq_eq_ruleSeq {settings : Settings} (h : settings.flat = false) :
    seq settings (expr settings) = ruleSeq (exprOf (ruleList settings CallStack.room)) := by
  rw [seq, h, ruleList_eq h]
  exact (ruleSeq_eq_chainSeq (expr settings)).symm

end Bounded

/-- Inside of a list both readers stop alike at `a b (c`, where the inner list has no end. -/
theorem seq_eq_ruleSeq_unfinished :
    let settings : Settings := { checkClose := true, maxDepth := .int 2 }
    let cursor : Cursor :=
      ⟨[.leaf ⟨.identifier, "a"⟩, .leaf ⟨.identifier, "b"⟩, .leaf ⟨.literal, "("⟩,
        .leaf ⟨.identifier, "c"⟩], 1⟩
    settings.flat = false ∧
      seq settings (expr settings) cursor =
        ruleSeq (exprOf (ruleList settings CallStack.room)) cursor := by
  intro settings cursor
  exact ⟨rfl, congrFun (seq_eq_ruleSeq rfl) cursor⟩

end Reader

end SexprReader
