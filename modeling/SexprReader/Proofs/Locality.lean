import SexprReader.Proofs.ChainRule
import SexprReader.Proofs.Lossless

/-!
# More nodes behind

Readers look one node ahead, and a chained sequence does so at every turn.  Still what they give does
not depend on nodes that they do not reach: with more nodes behind, a reader does what it does without
them, and it leaves these nodes as well, unless it stopped for want of a node or of room on the stack of
calls (`IsLocal`).  Every reader of the library is local but the one for programs, which goes on to the
end whatever comes.

Locality is kept by binds (`IsLocalAt.bind`).  A question that is answered at the end too, as
`Cursor.atClose` is, needs more: there a reader of expressions must stop for want of one of the two
(`LocalItem.ended`), so that the answer does not matter.

With more nodes behind, a program that is read without them goes on with the next expression
(`programFrom_extend`), and what it gives from there on does not depend on the expressions before
(`programFrom_append_found`).  So programs may be read part by part (`Program.read_append`).
-/

namespace SexprReader

/-- The cursor with more nodes behind those that are left. -/
def Cursor.extend (more : List Node) (cursor : Cursor) : Cursor :=
  { cursor with rest := cursor.rest ++ more }

/-- The fault need not stay with more nodes behind: a node was wanting, or there was no room for an
expression where a `)` could stand as well. -/
def ReadFault.IsOpen (fault : ReadFault) : Prop :=
  fault = .grammar .unexpectedEnd ∨ fault = .grammar .overCap

namespace Reader

variable {α β : Type}

/-- How a result compares with the result that there is with `more` nodes behind: it is the same, and
these nodes are left as well, unless the reader stopped with a fault that need not stay. -/
inductive Extended (more : List Node) :
    EStateM.Result ReadFault Cursor α → EStateM.Result ReadFault Cursor α → Prop
  | ok (a : α) (last : Cursor) : Extended more (.ok a last) (.ok a (last.extend more))
  | error (fault : ReadFault) (last : Cursor) :
      Extended more (.error fault last) (.error fault (last.extend more))
  | ended {fault : ReadFault} (h : fault.IsOpen) (last : Cursor)
      (result : EStateM.Result ReadFault Cursor α) : Extended more (.error fault last) result

/-- At the cursor the reader depends on the nodes that it reaches. -/
def IsLocalAt (reader : Reader α) (cursor : Cursor) : Prop :=
  ∀ more, Extended more (reader cursor) (reader (cursor.extend more))

/-- The reader depends on the nodes that it reaches. -/
def IsLocal (reader : Reader α) : Prop := ∀ cursor, IsLocalAt reader cursor

/-- The item is local, and at the end it stops with a fault that need not stay. -/
structure LocalItem (item : Item) : Prop where
  isLocal : IsLocal item.read
  ended : ∀ depth, ∃ fault : ReadFault,
    fault.IsOpen ∧ item.read ⟨[], depth⟩ = .error fault ⟨[], depth⟩

/-! ### Rules for locality -/

section Rules

variable {reader reader' first : Reader α} {next : α → Reader β} {cursor last : Cursor} {a : α}

/-- What a local reader gives it also gives with more nodes behind. -/
theorem IsLocalAt.eq_ok (h : IsLocalAt reader cursor) (he : reader cursor = .ok a last)
    (more : List Node) : reader (cursor.extend more) = .ok a (last.extend more) := by
  have hmore := h more
  rw [he] at hmore
  generalize reader (cursor.extend more) = result at hmore
  cases hmore
  rfl

/-- Where a local reader stops it also stops with more nodes behind, unless the fault need not stay. -/
theorem IsLocalAt.eq_error {fault : ReadFault} (h : IsLocalAt reader cursor)
    (he : reader cursor = .error fault last) (more : List Node) :
    fault.IsOpen ∨ reader (cursor.extend more) = .error fault (last.extend more) := by
  have hmore := h more
  rw [he] at hmore
  generalize reader (cursor.extend more) = result at hmore
  cases hmore with
  | error => exact Or.inr rfl
  | ended ho => exact Or.inl ho

theorem IsLocalAt.congr (h : IsLocalAt reader cursor) (hc : reader' cursor = reader cursor)
    (hm : ∀ more, reader' (cursor.extend more) = reader (cursor.extend more)) :
    IsLocalAt reader' cursor := by
  intro more
  rw [hc, hm]
  exact h more

theorem isLocalAt_of_isOpen {fault : ReadFault} (ho : fault.IsOpen)
    (h : reader cursor = .error fault last) : IsLocalAt reader cursor := by
  intro more
  rw [h]
  exact .ended ho last _

theorem isLocalAt_of_ended (h : reader cursor = .error (.grammar .unexpectedEnd) last) :
    IsLocalAt reader cursor :=
  isLocalAt_of_isOpen (Or.inl rfl) h

theorem isLocal_pure (a : α) : IsLocal (pure a) := fun cursor _ => .ok a cursor

theorem isLocal_fail (cause : GrammarFault) : IsLocal (fail cause : Reader α) :=
  fun cursor _ => .error (.grammar cause) cursor

theorem IsLocalAt.bind (h : IsLocalAt first cursor)
    (hn : ∀ a later, first cursor = .ok a later → IsLocalAt (next a) later) :
    IsLocalAt (first >>= next) cursor := by
  intro more
  cases hf : first cursor with
  | ok a later =>
    rw [bind_of_ok hf, bind_of_ok (h.eq_ok hf more)]
    exact hn a later hf more
  | error fault later =>
    rcases h.eq_error hf more with ho | hx
    · exact isLocalAt_of_isOpen ho (bind_of_error hf) more
    · rw [bind_of_error hf, bind_of_error hx]
      exact .error fault later

theorem IsLocal.bind (h : IsLocal first) (hn : ∀ a, IsLocal (next a)) : IsLocal (first >>= next) :=
  fun cursor => (h cursor).bind fun a later _ => hn a later

end Rules

/-! ### Single nodes -/

theorem isLocal_peek : IsLocal peek
  | ⟨[], _⟩ => isLocalAt_of_ended rfl
  | ⟨node :: rest, depth⟩ => fun _ => .ok node ⟨node :: rest, depth⟩

theorem isLocal_advance : IsLocal advance
  | ⟨[], _⟩ => isLocalAt_of_ended rfl
  | ⟨node :: rest, depth⟩ => fun _ => .ok node ⟨rest, depth⟩

theorem isLocal_close (settings : Settings) : IsLocal (close settings) := by
  refine isLocal_advance.bind fun node => ?_
  split
  · exact isLocal_fail _
  · exact isLocal_pure _

theorem isLocal_atom : IsLocal atom := by
  refine isLocal_peek.bind fun node => ?_
  split
  · exact isLocal_advance.bind fun _ => isLocal_pure _
  · split
    · exact isLocal_advance.bind fun _ => isLocal_pure _
    · exact isLocal_fail _

theorem isLocal_expectOpen : IsLocal expectOpen := by
  refine isLocal_peek.bind fun node => ?_
  split
  · exact isLocal_pure _
  · exact isLocal_fail _

/-! ### Sequences -/

variable {item : Item}

theorem isLocal_chainFrom (hi : IsLocal item.read) (head : Node) (outer : List Pending) :
    IsLocal (chainFrom item head outer) := by
  intro cursor
  induction hn : cursor.rest.length using Nat.strongRecOn generalizing head outer cursor with
  | ind n ih =>
    obtain ⟨_ | ⟨next, rest⟩, depth⟩ := cursor
    · exact isLocalAt_of_ended (chainFrom_of_nil item head outer rfl)
    -- the next node is the same with more nodes behind, and it settles how to go on
    cases hs : settle next head outer with
    | inl done =>
      refine (isLocal_pure done _).congr (chainFrom_of_inl item rfl hs) fun more => ?_
      exact chainFrom_of_inl item rfl hs
    | inr outer' =>
      refine ((hi _).bind fun head' later hr => ?_).congr (chainFrom_of_inr item rfl hs)
        fun more => chainFrom_of_inr item rfl hs
      exact ih _ (hn ▸ item.consumes hr) head' outer' later rfl

theorem isLocal_chainSeq (hi : IsLocal item.read) : IsLocal (chainSeq item) :=
  hi.bind fun head => isLocal_chainFrom hi head []

theorem isLocal_flatFrom (hi : LocalItem item) (found : List Node) :
    IsLocal (flatFrom item found) := by
  intro cursor
  induction hn : cursor.rest.length using Nat.strongRecOn generalizing found cursor with
  | ind n ih =>
    obtain ⟨_ | ⟨next, rest⟩, depth⟩ := cursor
    · obtain ⟨fault, ho, hended⟩ := hi.ended depth
      have hend : flatFrom item found ⟨[], depth⟩ = _ := flatFrom_of_not_atClose item found rfl
      rw [bind_of_error hended] at hend
      exact isLocalAt_of_isOpen ho hend
    cases hc : Cursor.atClose ⟨next :: rest, depth⟩ with
    | true =>
      exact (isLocal_pure _ _).congr (flatFrom_of_atClose item found hc)
        fun more => flatFrom_of_atClose item found hc
    | false =>
      refine ((hi.isLocal _).bind fun node later hr => ?_).congr
        (flatFrom_of_not_atClose item found hc) fun more => flatFrom_of_not_atClose item found hc
      exact ih _ (hn ▸ item.consumes hr) (node :: found) later rfl

theorem isLocal_flatSeq (hi : LocalItem item) : IsLocal (flatSeq item) :=
  hi.isLocal.bind fun head => isLocal_flatFrom hi [head]

theorem isLocal_seq (settings : Settings) (hi : LocalItem item) : IsLocal (seq settings item) := by
  unfold seq
  split
  · exact isLocal_flatSeq hi
  · exact isLocal_chainSeq hi.isLocal

theorem seq_of_ended (settings : Settings) {cursor later : Cursor} {fault : ReadFault}
    (h : item.read cursor = .error fault later) : seq settings item cursor = .error fault later := by
  unfold seq
  split
  · exact bind_of_error h
  · exact bind_of_error h

/-! ### Lists -/

theorem isLocal_body (settings : Settings) (hi : LocalItem item) :
    IsLocal (body settings item) := by
  rintro ⟨_ | ⟨next, rest⟩, depth⟩
  · obtain ⟨fault, ho, hended⟩ := hi.ended depth
    have hend := body_eq settings item ⟨[], depth⟩
    rw [Cursor.atClose, Bool.and_false, if_neg Bool.false_ne_true,
      bind_of_error (seq_of_ended settings hended)] at hend
    exact isLocalAt_of_isOpen ho hend
  · have hbody := (isLocal_seq settings hi).bind fun node => isLocal_pure [node]
    intro more
    have hc : Cursor.atClose (Cursor.extend more ⟨next :: rest, depth⟩) =
        Cursor.atClose ⟨next :: rest, depth⟩ := rfl
    rw [body_eq, body_eq, hc]
    split
    · exact .ok [] ⟨next :: rest, depth⟩
    · exact hbody _ more

theorem Extended.leave {more : List Node} {result result' : EStateM.Result ReadFault Cursor α}
    (h : Extended more result result') : Extended more (leave result) (leave result') := by
  cases h with
  | ok a last => exact .ok a ⟨last.rest, last.depth - 1⟩
  | error fault last => exact .error fault ⟨last.rest, last.depth - 1⟩
  | ended ho last result => exact .ended ho _ _

theorem IsLocal.nested {inner : Reader α} (settings : Settings) (h : IsLocal inner) :
    IsLocal (Reader.nested settings inner) := by
  rintro ⟨rest, depth⟩ more
  rw [Cursor.extend]
  cases he : settings.exceeded (depth + 1) with
  | error cause =>
    rw [nested_of_error he, nested_of_error he]
    exact .error _ ⟨rest, depth + 1⟩
  | ok refused =>
    cases refused with
    | true =>
      rw [nested_of_exceeded he, nested_of_exceeded he]
      exact .error _ ⟨rest, depth + 1⟩
    | false =>
      rw [nested_of_admitted he, nested_of_admitted he]
      exact (h ⟨rest, depth + 1⟩ more).leave

theorem isLocal_listOf (settings : Settings) (hi : LocalItem item) :
    IsLocal (listOf settings item) := by
  refine isLocal_expectOpen.bind fun _ => IsLocal.nested settings ?_
  refine isLocal_advance.bind fun opener => (isLocal_body settings hi).bind fun held => ?_
  exact (isLocal_close settings).bind fun closer => isLocal_pure _

theorem isLocal_exprOf {list : Reader Node} (hl : IsLocal list) : IsLocal (exprOf list) := by
  refine isLocal_peek.bind fun node => ?_
  dsimp only
  split
  · exact hl.bind fun _ => isLocal_pure _
  · exact isLocal_atom.bind fun _ => isLocal_pure _

theorem localItem_exprOf {list : Reader Node} (hl : IsLocal list)
    (hc : Consumes (exprOf list)) : LocalItem ⟨exprOf list, hc⟩ :=
  ⟨isLocal_exprOf hl, fun depth => ⟨_, Or.inl rfl, exprOf_nil list depth⟩⟩

section Bounded

variable [CallStack]

theorem isOpen_starvation (cursor : Cursor) : (ReadFault.grammar (starvation cursor)).IsOpen := by
  unfold starvation
  split
  · exact Or.inl rfl
  · exact Or.inr rfl

theorem localItem_starved : LocalItem ⟨starved, consumes_starved⟩ where
  isLocal cursor := isLocalAt_of_isOpen (isOpen_starvation cursor) (starved_eq cursor)
  ended depth := ⟨_, isOpen_starvation ⟨[], depth⟩, starved_eq ⟨[], depth⟩⟩

theorem isLocal_listWithin (settings : Settings) (room : Nat) :
    IsLocal (listWithin settings room).read := by
  induction room with
  | zero => exact isLocal_listOf settings localItem_starved
  | succ room ih => exact isLocal_listOf settings (localItem_exprOf ih _)

theorem isLocal_expr (settings : Settings) : IsLocal (expr settings).read :=
  isLocal_exprOf (isLocal_listWithin settings CallStack.room)

end Bounded

/-! ### Programs -/

/-- With more nodes behind, a program goes on where it ends without them. -/
theorem programFrom_extend (hi : IsLocal item.read) {found : List Node} {cursor last : Cursor}
    {tree : Node} (h : programFrom item found cursor = .ok tree last) (more : List Node) :
    ∃ children, tree = .tree .program children ∧
      programFrom item found (cursor.extend more) =
        programFrom item children.reverse (last.extend more) := by
  fun_induction programFrom item found cursor with
  | case1 found cursor =>
    cases h
    exact ⟨found.reverse, rfl, by rw [List.reverse_reverse]⟩
  | case2 => cases h
  | case3 found cursor next rest hr node later he ih =>
    obtain ⟨children, rfl, hx⟩ := ih h
    refine ⟨children, rfl, ?_⟩
    have hmore : (cursor.extend more).rest = next :: (rest ++ more) := by
      rw [Cursor.extend, hr, List.cons_append]
    rw [programFrom_of_cons item found hmore, bind_of_ok ((hi cursor).eq_ok he more), hx]

/-- Expressions that were read before stay in front of those that are read. -/
theorem programFrom_append_found (item : Item) (found earlier : List Node) (cursor : Cursor) :
    programFrom item (found ++ earlier) cursor =
      (programFrom item found >>= fun tree =>
        pure (.tree .program (earlier.reverse ++ tree.children))) cursor := by
  fun_induction programFrom item found cursor with
  | case1 found cursor hr =>
    rw [programFrom_of_nil item _ hr, bind_of_ok (programFrom_of_nil item _ hr),
      List.reverse_append]
    rfl
  | case2 found cursor next rest hr fault later he =>
    rw [programFrom_of_cons item _ hr, bind_of_error he,
      bind_congr_left (programFrom_of_cons item found hr), bind_assoc, bind_of_error he]
  | case3 found cursor next rest hr node later he ih =>
    rw [programFrom_of_cons item _ hr, bind_of_ok he,
      bind_congr_left (programFrom_of_cons item found hr), bind_assoc, bind_of_ok he,
      ← List.cons_append, ih]

/-- Behind a program the next one is read as it is alone, and its expressions are added. -/
theorem program_append [CallStack] {settings : Settings} {first : List Node} {depth : Nat}
    {last : Cursor} {tree : Node} (h : program settings ⟨first, depth⟩ = .ok tree last)
    (second : List Node) :
    ∃ children, tree = .tree .program children ∧
      program settings ⟨first ++ second, depth⟩ =
        (program settings >>= fun tree' =>
          pure (.tree .program (children ++ tree'.children))) ⟨second, depth⟩ := by
  obtain ⟨children, rfl, hmore⟩ := programFrom_extend (isLocal_expr settings) h second
  refine ⟨children, rfl, hmore.trans ?_⟩
  obtain ⟨-, -, hd, -⟩ := lossless_program settings h
  have hlast : last.extend second = ⟨second, depth⟩ := by
    rw [Cursor.extend, rest_eq_nil_of_programFrom h, List.nil_append, hd]
  have hfound := programFrom_append_found (expr settings) [] children.reverse ⟨second, depth⟩
  rw [List.nil_append, List.reverse_reverse] at hfound
  rw [hlast]
  exact hfound

end Reader

namespace Program

/-- If the nodes `first` stand for a program, then with the nodes `second` behind them they stand for
the program with the expressions of both, and for none, with the same fault, if `second` does not
stand for one. -/
theorem read_append [CallStack] {first : List Node} {options : Options} {tree : Node}
    (h : read first options = .ok tree) (second : List Node) :
    ∃ children, tree = .tree .program children ∧
      (∀ tree', read second options = .ok tree' → ∃ children', tree' = .tree .program children' ∧
        read (first ++ second) options = .ok (.tree .program (children ++ children'))) ∧
      ∀ fault, read second options = .error fault →
        read (first ++ second) options = .error fault := by
  obtain ⟨settings, last, ho, hp⟩ := read_eq_ok_iff.1 h
  obtain ⟨children, rfl, hboth⟩ := Reader.program_append hp second
  refine ⟨children, rfl, fun tree' h' => ?_, fun fault h' => ?_⟩
  · obtain ⟨settings', last, ho', hp'⟩ := read_eq_ok_iff.1 h'
    cases ho.symm.trans ho'
    obtain ⟨children', rfl, -⟩ := Reader.program_append hp' []
    refine ⟨children', rfl, read_eq_ok_iff.2 ⟨settings, last, ho, ?_⟩⟩
    rw [hboth, Reader.bind_of_ok hp']
    rfl
  · rw [read_of_settings ho] at h' ⊢
    rw [hboth]
    cases hp' : Reader.program settings ⟨second, 0⟩ with
    | ok tree' last =>
      rw [hp'] at h'
      cases h'
    | error fault' last =>
      rw [hp'] at h'
      cases h'
      rw [Reader.bind_of_error hp']

/-- A list that ends at a `(`, and a `)` behind it, which is not taken for the end of a list. -/
theorem read_append_open_as_closer :
    let first := [⟨.literal, "("⟩, ⟨.identifier, "a"⟩, ⟨.literal, "("⟩].map Node.leaf
    let second := [⟨.literal, ")"⟩].map Node.leaf
    let body : Node := .tree .seq [.tree .sexpr [.tree .atom [.leaf ⟨.identifier, "a"⟩]]]
    let list : Node :=
      .tree .sexpr [.tree .list [.leaf ⟨.literal, "("⟩, body, .leaf ⟨.literal, "("⟩]]
    let stray : Node := .tree .sexpr [.leaf ⟨.literal, ")"⟩]
    read first (.loose .null) = .ok (.tree .program [list]) ∧
      read second (.loose .null) = .ok (.tree .program [stray]) ∧
      read (first ++ second) (.loose .null) = .ok (.tree .program [list, stray]) := by
  intro first second body list stray
  have hfirst : read first (.loose .null) = .ok (.tree .program [list]) :=
    eq_ok_of_toOption (by decide +kernel)
  have hsecond : read second (.loose .null) = .ok (.tree .program [stray]) :=
    eq_ok_of_toOption (by decide +kernel)
  obtain ⟨children, hc, hboth, -⟩ := read_append hfirst second
  cases hc
  obtain ⟨children', hc', hread⟩ := hboth _ hsecond
  cases hc'
  exact ⟨hfirst, hsecond, hread⟩

end Program

end SexprReader
