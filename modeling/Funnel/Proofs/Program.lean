import Funnel.Program
import Mathlib.Data.List.Forall2

/-!
# What programs ask for and get to

A program is a tree of requests, and the answers choose a path through it. The exchanges of a
program are taken apart in the way in which the program is put together.
-/

namespace Funnel

/-- A request with the answer to it. -/
structure Exchange where
  request : Request
  answer : request.Answer

/-- The store accepted a statement. -/
def Exchange.Accepts (exchange : Exchange) (statement : Store.Statement) : Prop :=
  ∃ answer, exchange = ⟨.execute statement, .ok answer⟩

/-- The statement that was sent to the store, whatever came of it. -/
def Exchange.statement? (exchange : Exchange) : Option Store.Statement :=
  match exchange.request with
  | .execute statement => some statement
  | _ => none

/-- The statements that were sent to the store in the course of some exchanges. -/
def statementsOf (exchanges : List Exchange) : List Store.Statement :=
  exchanges.filterMap Exchange.statement?

@[simp]
theorem statementsOf_append (first second : List Exchange) :
    statementsOf (first ++ second) = statementsOf first ++ statementsOf second :=
  List.filterMap_append ..

/-- If a request has a statement executed, then one that has some property. -/
def Request.ExecutesOnly (q : Store.Statement → Prop) (request : Request) : Prop :=
  ∀ statement, request = .execute statement → q statement

theorem Request.executesOnly_execute {q : Store.Statement → Prop} {statement : Store.Statement}
    (h : q statement) : (Request.execute statement).ExecutesOnly q := by
  rintro _ ⟨⟩
  exact h

theorem Request.ExecutesOnly.mono {q q' : Store.Statement → Prop} {request : Request}
    (h : request.ExecutesOnly q) (hq : ∀ statement, q statement → q' statement) :
    request.ExecutesOnly q' :=
  fun statement heq => hq statement (h statement heq)

theorem statementsOf_of_accepts {exchanges : List Exchange} {statements : List Store.Statement}
    (h : List.Forall₂ Exchange.Accepts exchanges statements) :
    statementsOf exchanges = statements := by
  induction h with
  | nil => rfl
  | cons haccepts _ ih =>
    obtain ⟨answer, rfl⟩ := haccepts
    exact congrArg (_ :: ·) ih

namespace Program

variable {α β : Type} {exchanges : List Exchange}

/-- A program gets to a result by some exchanges, one after the other. -/
inductive Yields {α : Type} : Program α → List Exchange → α → Prop
  | done (result : α) : Yields (.done result) [] result
  | ask {request : Request} {next : request.Answer → Program α} {answer : request.Answer}
      {exchanges : List Exchange} {result : α} (rest : Yields (next answer) exchanges result) :
      Yields (.ask request next) (⟨request, answer⟩ :: exchanges) result

theorem yields_pure_iff {a b : α} :
    (pure a : Program α).Yields exchanges b ↔ exchanges = [] ∧ b = a := by
  constructor
  · rintro ⟨⟩
    exact ⟨rfl, rfl⟩
  · rintro ⟨rfl, rfl⟩
    exact .done b

theorem yields_bind_iff {p : Program α} {f : α → Program β} {b : β} :
    (p >>= f).Yields exchanges b ↔
      ∃ first second a, exchanges = first ++ second ∧ p.Yields first a ∧
        (f a).Yields second b := by
  constructor
  · intro h
    induction p generalizing exchanges with
    | done result => exact ⟨[], exchanges, result, rfl, .done result, h⟩
    | ask request next ih =>
      cases h with
      | ask rest =>
        obtain ⟨first, second, a, rfl, hfirst, hsecond⟩ := ih _ rest
        exact ⟨_ :: first, second, a, rfl, .ask hfirst, hsecond⟩
  · rintro ⟨first, second, a, rfl, hfirst, hsecond⟩
    induction hfirst with
    | done result => exact hsecond
    | ask _ ih => exact .ask (ih hsecond)

/-- Whatever it is answered, a program asks only for what has some property. -/
inductive AsksOnly (p : Request → Prop) {α : Type} : Program α → Prop
  | done (result : α) : AsksOnly p (.done result)
  | ask {request : Request} {next : request.Answer → Program α} (head : p request)
      (rest : ∀ answer, AsksOnly p (next answer)) : AsksOnly p (.ask request next)

variable {p : Request → Prop}

theorem AsksOnly.mono {p' : Request → Prop} {program : Program α} (h : program.AsksOnly p)
    (hp : ∀ request, p request → p' request) : program.AsksOnly p' := by
  induction h with
  | done result => exact .done result
  | ask head _ ih => exact .ask (hp _ head) ih

theorem AsksOnly.of_yields {program : Program α} {result : α} (h : program.AsksOnly p)
    (hyields : program.Yields exchanges result) : ∀ exchange ∈ exchanges, p exchange.request := by
  induction hyields with
  | done result => simp
  | ask rest ih =>
    cases h with
    | ask head hrest => exact List.forall_mem_cons.2 ⟨head, ih (hrest _)⟩

theorem AsksOnly.of_mem_statementsOf {q : Store.Statement → Prop} {program : Program α}
    {result : α} (h : program.AsksOnly (Request.ExecutesOnly q))
    (hyields : program.Yields exchanges result) : ∀ statement ∈ statementsOf exchanges,
      q statement := by
  intro statement hmem
  obtain ⟨exchange, hexchange, hstatement⟩ := List.mem_filterMap.1 hmem
  refine h.of_yields hyields exchange hexchange statement ?_
  unfold Exchange.statement? at hstatement
  split at hstatement
  · rename_i hrequest
    rw [hrequest, Option.some.inj hstatement]
  · cases hstatement

theorem AsksOnly.bind {program : Program α} {f : α → Program β} (h : program.AsksOnly p)
    (hf : ∀ a, (f a).AsksOnly p) : (program >>= f).AsksOnly p := by
  induction h with
  | done result => exact hf result
  | ask head _ ih => exact .ask head ih

end Program

namespace Action

variable {α β : Type} {exchanges : List Exchange}

theorem yields_pure_iff {a b : α} :
    (pure a : Action α).run.Yields exchanges (.ok b) ↔ exchanges = [] ∧ b = a := by
  refine Program.yields_pure_iff.trans (and_congr_right fun _ => ?_)
  exact ⟨Except.ok.inj, congrArg Except.ok⟩

/-- An action after another one ends as the first does if that fails, and else as the second. -/
theorem yields_bind_result_iff {x : Action α} {f : α → Action β} {result : Except Abort β} :
    (x >>= f).run.Yields exchanges result ↔
      (∃ abort, result = .error abort ∧ x.run.Yields exchanges (.error abort)) ∨
        ∃ first second a, exchanges = first ++ second ∧ x.run.Yields first (.ok a) ∧
          (f a).run.Yields second result := by
  rw [ExceptT.run_bind, Program.yields_bind_iff]
  constructor
  · rintro ⟨first, second, abort | a, rfl, hfirst, hsecond⟩
    · obtain ⟨rfl, rfl⟩ := Program.yields_pure_iff.1 hsecond
      exact .inl ⟨abort, rfl, by rwa [List.append_nil]⟩
    · exact .inr ⟨first, second, a, rfl, hfirst, hsecond⟩
  · rintro (⟨abort, rfl, hfirst⟩ | ⟨first, second, a, rfl, hfirst, hsecond⟩)
    · exact ⟨exchanges, [], .error abort, by rw [List.append_nil], hfirst,
        Program.yields_pure_iff.2 ⟨rfl, rfl⟩⟩
    · exact ⟨first, second, .ok a, rfl, hfirst, hsecond⟩

/-- An action succeeds after another one if both do. -/
theorem yields_bind_iff {x : Action α} {f : α → Action β} {b : β} :
    (x >>= f).run.Yields exchanges (.ok b) ↔
      ∃ first second a, exchanges = first ++ second ∧ x.run.Yields first (.ok a) ∧
        (f a).run.Yields second (.ok b) := by
  rw [yields_bind_result_iff]
  simp only [reduceCtorEq, false_and, exists_false, false_or]

theorem yields_bind {x : Action α} {f : α → Action β} {first second : List Exchange} {a : α}
    {result : Except Abort β} (hx : x.run.Yields first (.ok a))
    (hf : (f a).run.Yields second result) : (x >>= f).run.Yields (first ++ second) result :=
  yields_bind_result_iff.2 (.inr ⟨first, second, a, rfl, hx, hf⟩)

theorem yields_perform_iff {request : Request} {answer : request.Answer} :
    (perform request).run.Yields exchanges (.ok answer) ↔ exchanges = [⟨request, answer⟩] := by
  constructor
  · intro h
    cases h with
    | ask rest =>
      cases rest
      rfl
  · rintro rfl
    exact .ask (.done _)

/-- After a request an action goes on with the answer. -/
theorem yields_perform_bind_iff {request : Request} {f : request.Answer → Action β}
    {result : Except Abort β} :
    (perform request >>= f).run.Yields exchanges result ↔
      ∃ answer rest, exchanges = ⟨request, answer⟩ :: rest ∧ (f answer).run.Yields rest result := by
  constructor
  · intro h
    cases h with
    | ask rest => exact ⟨_, _, rfl, rest⟩
  · rintro ⟨answer, rest, rfl, hrest⟩
    exact .ask hrest

theorem yields_expect_iff {ε : Type} {failure : ε → Failure} {x : Except ε α} {a : α} :
    (expect failure x).run.Yields exchanges (.ok a) ↔ exchanges = [] ∧ x = .ok a := by
  cases x with
  | error error =>
    constructor
    · rintro ⟨⟩
    · rintro ⟨-, ⟨⟩⟩
  | ok value =>
    refine yields_pure_iff.trans (and_congr_right fun _ => ?_)
    rw [Except.ok.injEq, eq_comm]

/-- An action whose result is looked into succeeds if the action does and nothing is wrong with its
result. -/
theorem yields_bind_expect_iff {ε : Type} {x : Action α} {failure : ε → Failure}
    {f : α → Except ε β} {b : β} :
    (x >>= fun a => expect failure (f a)).run.Yields exchanges (.ok b) ↔
      ∃ a, x.run.Yields exchanges (.ok a) ∧ f a = .ok b := by
  rw [yields_bind_iff]
  constructor
  · rintro ⟨first, second, a, rfl, hfirst, hsecond⟩
    obtain ⟨rfl, hf⟩ := yields_expect_iff.1 hsecond
    exact ⟨a, by rwa [List.append_nil], hf⟩
  · rintro ⟨a, hfirst, hf⟩
    exact ⟨exchanges, [], a, by rw [List.append_nil], hfirst, yields_expect_iff.2 ⟨rfl, hf⟩⟩

theorem yields_connect_iff :
    connect.run.Yields exchanges (.ok ()) ↔ exchanges = [⟨.connect, .ok ()⟩] := by
  refine yields_bind_expect_iff.trans ?_
  simp only [yields_perform_iff]
  constructor
  · rintro ⟨_, rfl, hanswer⟩
    exact congrArg (fun answer => [Exchange.mk .connect answer]) hanswer
  · rintro rfl
    exact ⟨_, rfl, rfl⟩

/-- A statement is executed by one exchange. -/
theorem yields_execute_iff {statement : Store.Statement} {failure : Store.StoreError → Failure}
    {answer : statement.Answer} :
    (execute statement failure).run.Yields exchanges (.ok answer) ↔
      exchanges = [⟨.execute statement, .ok answer⟩] := by
  constructor
  · intro h
    cases h with
    | @ask _ _ reply _ _ rest =>
      cases reply with
      | error error => cases rest
      | ok answer =>
        cases rest
        rfl
  · rintro rfl
    exact .ask (.done _)

theorem statementsOf_execute {statement : Store.Statement}
    {failure : Store.StoreError → Failure} {result : Except Abort statement.Answer}
    (h : (execute statement failure).run.Yields exchanges result) :
    statementsOf exchanges = [statement] := by
  cases h with
  | @ask _ _ reply _ _ rest =>
    cases reply with
    | error error =>
      cases rest
      rfl
    | ok answer =>
      cases rest
      rfl

theorem forM_execute_cons (statement : Store.Statement) (statements : List Store.Statement) :
    ((statement :: statements).forM fun statement => discard (execute statement) :
      Action PUnit) = execute statement >>= fun _ =>
        statements.forM fun statement => discard (execute statement) := by
  show (discard (execute statement) >>= fun _ => _) = _
  exact bind_map_left (Function.const _ ()) (execute statement) _

/-- Of statements that are to be executed one after the other the first ones are sent, up to one
that is refused. -/
theorem statementsOf_forM_execute {statements : List Store.Statement}
    {result : Except Abort PUnit}
    (h : (statements.forM fun statement => discard (execute statement) : Action PUnit).run.Yields
      exchanges result) : statementsOf exchanges <+: statements := by
  induction statements generalizing exchanges with
  | nil =>
    obtain ⟨rfl, -⟩ := Program.yields_pure_iff.1 h
    exact ⟨[], rfl⟩
  | cons statement statements ih =>
    rw [forM_execute_cons, yields_bind_result_iff] at h
    rcases h with ⟨abort, -, hfirst⟩ | ⟨first, second, answer, rfl, hfirst, hsecond⟩
    · rw [statementsOf_execute hfirst]
      exact ⟨statements, rfl⟩
    · obtain ⟨rest, hrest⟩ := ih hsecond
      rw [statementsOf_append, statementsOf_execute hfirst]
      exact ⟨rest, congrArg (statement :: ·) hrest⟩

/-- Statements that are executed one after the other are all accepted. -/
theorem yields_forM_execute_iff {statements : List Store.Statement} :
    (statements.forM fun statement => discard (execute statement) : Action PUnit).run.Yields
        exchanges (.ok ()) ↔
      List.Forall₂ Exchange.Accepts exchanges statements := by
  induction statements generalizing exchanges with
  | nil =>
    rw [List.forall₂_nil_right_iff]
    exact yields_pure_iff.trans (and_iff_left rfl)
  | cons statement statements ih =>
    rw [forM_execute_cons, yields_bind_iff, List.forall₂_cons_right_iff]
    constructor
    · rintro ⟨first, second, answer, rfl, hfirst, hsecond⟩
      obtain rfl := yields_execute_iff.1 hfirst
      exact ⟨_, second, ⟨answer, rfl⟩, ih.1 hsecond, rfl⟩
    · rintro ⟨_, second, ⟨answer, rfl⟩, hsecond, rfl⟩
      exact ⟨[_], second, answer, rfl, yields_execute_iff.2 rfl, ih.2 hsecond⟩

section AsksOnly

variable {p : Request → Prop}

theorem asksOnly_pure (a : α) : (pure a : Action α).run.AsksOnly p :=
  .done _

theorem asksOnly_throw (abort : Abort) : (throw abort : Action α).run.AsksOnly p :=
  .done _

theorem asksOnly_bind {x : Action α} {f : α → Action β} (h : x.run.AsksOnly p)
    (hf : ∀ a, (f a).run.AsksOnly p) : (x >>= f).run.AsksOnly p := by
  rw [ExceptT.run_bind]
  refine h.bind fun result => ?_
  cases result with
  | error abort => exact .done _
  | ok a => exact hf a

theorem asksOnly_perform {request : Request} (h : p request) : (perform request).run.AsksOnly p :=
  .ask h fun _ => .done _

theorem asksOnly_expect {ε : Type} (failure : ε → Failure) (x : Except ε α) :
    (expect failure x).run.AsksOnly p := by
  cases x with
  | error error => exact asksOnly_throw _
  | ok value => exact asksOnly_pure _

/-- What is wrong with a value keeps an action from going on with it. -/
theorem asksOnly_expect_bind {ε : Type} {failure : ε → Failure} {x : Except ε α}
    {f : α → Action β} (h : ∀ a, x = .ok a → (f a).run.AsksOnly p) :
    (expect failure x >>= f).run.AsksOnly p := by
  cases x with
  | error error => exact .done _
  | ok a => exact h a rfl

theorem asksOnly_execute {statement : Store.Statement} (failure : Store.StoreError → Failure)
    (h : p (.execute statement)) : (execute statement failure).run.AsksOnly p :=
  asksOnly_bind (asksOnly_perform h) fun _ => asksOnly_expect ..

theorem asksOnly_connect (h : p .connect) : connect.run.AsksOnly p :=
  asksOnly_bind (asksOnly_perform h) fun _ => asksOnly_expect ..

/-- Statements that are to be executed one after the other ask for nothing else. -/
theorem asksOnly_forM_execute {statements : List Store.Statement}
    (h : ∀ statement ∈ statements, p (.execute statement)) :
    (statements.forM fun statement => discard (execute statement) :
      Action PUnit).run.AsksOnly p := by
  induction statements with
  | nil => exact asksOnly_pure _
  | cons statement statements ih =>
    obtain ⟨hstatement, hrest⟩ := List.forall_mem_cons.1 h
    rw [forM_execute_cons]
    exact asksOnly_bind (asksOnly_execute _ hstatement) fun _ => ih hrest

end AsksOnly

end Action

end Funnel
