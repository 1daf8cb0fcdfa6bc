import ControlScript.Proofs.Closed
import ControlScript.Proofs.Execution

/-!
# Running a stored script

A machine that runs the code for a script does what the script does by its structure. It stands in
front of the code for a part of the script and comes to stand behind it, or in front of a label of
the loop around the part. While a part of the script runs on, so does the machine.

The clock is set before each tick, and whenever the machine waits it is set past the deadline.

## Main definitions

* `Machine.Patient`, `Machine.Course` — what a machine comes to, turn after turn
* `Machine.Loaded` — a machine that keeps closed code with statements of bounded length
* `Machine.Stands` — a machine with the memory of a script stands in front of some code
* `Machine.Meets`, `Machine.MeetsAll` — a machine meets the result of a script, or of all scripts

## Main results

* `Machine.Stands.turn_plain`, `Machine.Stands.turn_jump`, `Machine.Stands.turn_jumpUnless` — one
  turn
* `Machine.Meets.bind_branch`, `Machine.Meets.bind_body` — what becomes of a branch or a loop
* `Machine.meets_run` — a machine meets the result of running a script
-/

namespace ControlScript.Machine

open Instruction

/-- A time for the next tick that is past the deadline, if the machine waits for one. -/
def Patient (m : Machine) (time : Nat) : Prop :=
  m.program = .awaitingDelay → m.deadline < timeRange → m.deadline ≤ time % timeRange

/-- What a machine comes to, turn after turn: the clock is set and a tick given. -/
def Course (course : Nat → Machine) : Prop :=
  ∀ k, ∃ time, (course k).Patient time ∧ course (k + 1) = ((course k).setClock time).tick

/-- Closed code that is stored, with statements that the machine executes in full. -/
structure Loaded (base : Machine) (code : List Instruction) : Prop where
  program : base.store.program = encode code
  closed : Closed code
  fits : ∀ i ∈ code, i.text.length ≤ base.limits.statementLength

/-- A machine with the variables and the output of a memory stands in front of `rest`, an end of
the code. -/
structure Stands (base : Machine) (code rest : List Instruction) (memory : Memory) (m : Machine) :
    Prop where
  carries : Carries base memory m
  place : ∃ before, code = before ++ rest ∧ m.pc = (encode before).length

variable {base m : Machine} {code rest : List Instruction} {memory : Memory} {i : Instruction}
  {time : Nat}

theorem Carries.isDue (carries : Carries base memory m) (patient : m.Patient time) :
    (m.setClock time).IsDue := by
  have running := carries.running
  simp only [isRunning, decide_eq_true_eq] at running
  rcases running with active | awaiting
  · exact .inl active
  · exact .inr ⟨awaiting, patient awaiting (carries.ends awaiting)⟩

namespace Stands

/-- A turn goes on behind the next statement and executes it. -/
theorem turn (loaded : Loaded base code) (stands : Stands base code (i :: rest) memory m)
    (patient : m.Patient time) :
    ∃ next, Stands base code rest memory next ∧ i ∈ code ∧
      (m.setClock time).tick = next.execute i.text .program next.owner := by
  obtain ⟨carries, before, rfl, place⟩ := stands
  have member : i ∈ before ++ i :: rest := by simp
  have standing : (m.setClock time).At before (i :: rest) :=
    ⟨by rw [← loaded.program, ← carries.store]; rfl, place⟩
  have ticked :=
    tick_of_at_cons (carries.isDue patient) standing (loaded.closed.fit i member).proper
  have short : ¬(m.setClock time).limits.statementLength < i.text.length := by
    rw [show (m.setClock time).limits = base.limits from carries.limits]
    exact Nat.not_lt.mpr (loaded.fits i member)
  refine ⟨(m.setClock time).goneTo (encode (before ++ [i])).length, ?_, member,
    ticked.trans (if_neg short)⟩
  exact ⟨{ carries with running := rfl, ends := nofun }, before ++ [i], by simp, rfl⟩

/-- A turn at an instruction that goes on at the next one. -/
theorem turn_plain (loaded : Loaded base code) (stands : Stands base code (i :: rest) memory m)
    (plain : i.IsPlain) (patient : m.Patient time) :
    Stands base code rest (i.work base.readings memory) (m.setClock time).tick := by
  obtain ⟨next, ⟨carries, before, split, place⟩, member, ticked⟩ := stands.turn loaded patient
  obtain ⟨after, pc⟩ := carries.execute plain (loaded.closed.fit i member).proper
  rw [ticked]
  exact ⟨after, before, split, pc.trans place⟩

/-- A turn at a declaration. -/
theorem turn_declare {label : Nat} (loaded : Loaded base code)
    (stands : Stands base code (.declare label :: rest) memory m) (patient : m.Patient time) :
    Stands base code rest memory (m.setClock time).tick :=
  stands.turn_plain loaded trivial patient

/-- A turn at a jump. -/
theorem turn_jump {label : Nat} {target : List Instruction} (loaded : Loaded base code)
    (stands : Stands base code (.jump label :: rest) memory m) (patient : m.Patient time)
    (declared : .declare label :: target <:+ code) :
    Stands base code (.declare label :: target) memory (m.setClock time).tick := by
  obtain ⟨next, ⟨carries, -⟩, member, ticked⟩ := stands.turn loaded patient
  obtain ⟨before, split⟩ := declared
  have found := Store.findLabel?_of_closed loaded.closed loaded.program split.symm
  rw [← carries.store] at found
  have performed : Carries base memory (Attempt.reached (perform .jump
        ((Instruction.jump label).text.drop 2) .program next.owner next)) ∧
      (Attempt.reached (perform .jump ((Instruction.jump label).text.drop 2) .program next.owner
        next)).pc = (encode before).length := by
    rw [text, drop_code _ (by decide), perform_jump next.owner found]
    exact ⟨{ carries with }, rfl⟩
  obtain ⟨after, pc⟩ := carries.execute_of_perform rfl performed
  rw [ticked]
  exact ⟨after, before, split.symm, pc⟩

/-- A turn at a jump on a condition. -/
theorem turn_jumpUnless {holds : Condition} {label : Nat} {target : List Instruction}
    (loaded : Loaded base code)
    (stands : Stands base code (.jumpUnless holds label :: rest) memory m)
    (patient : m.Patient time) (declared : .declare label :: target <:+ code) :
    if holds.passes (memory.scope base.readings) then
      Stands base code rest memory (m.setClock time).tick
    else Stands base code (.declare label :: target) memory (m.setClock time).tick := by
  obtain ⟨next, ⟨carries, here, split', place⟩, member, ticked⟩ := stands.turn loaded patient
  obtain ⟨before, split⟩ := declared
  have found := Store.findLabel?_of_closed loaded.closed loaded.program split.symm
  rw [← carries.store] at found
  have outcome := perform_jumpIfFalse next.owner (loaded.closed.fit _ member).proper found
  -- Wherever the turn leads, memory and program stay as they are.
  have settled (pc : Nat) (done : Attempt.reached (perform .jumpIfFalse
      (holds.text ++ Byte.comma :: labelBytes label) .program next.owner next) = { next with pc }) :
      Carries base memory (next.execute (Instruction.jumpUnless holds label).text .program
        next.owner) ∧
      (next.execute (Instruction.jumpUnless holds label).text .program next.owner).pc = pc := by
    refine carries.execute_of_perform rfl ?_
    rw [text, List.append_assoc, drop_code _ (by decide), done]
    exact ⟨{ carries with }, rfl⟩
  rw [ticked, ← carries.scope, Condition.passes]
  cases held : holds.holds next.scope with
  | error f =>
    rw [held] at outcome
    obtain ⟨after, pc⟩ := settled next.pc (congrArg Attempt.reached outcome)
    exact ⟨after, here, split', pc.trans place⟩
  | ok holds =>
    rw [held] at outcome
    obtain ⟨after, pc⟩ := settled _ (congrArg Attempt.reached outcome)
    cases holds
    · exact ⟨after, before, split.symm, pc⟩
    · exact ⟨after, here, split', pc.trans place⟩

/-- A turn at the end of the code stops the program. -/
theorem turn_nil (loaded : Loaded base code) (stands : Stands base code [] memory m)
    (patient : m.Patient time) :
    (m.setClock time).tick.program = .stopped ∧ (m.setClock time).tick.vars = memory.vars ∧
      (m.setClock time).tick.outbox.toList =
        base.outbox.toList ++ memory.output.map (Delivery.mk base.owner) := by
  obtain ⟨carries, before, split, place⟩ := stands
  have standing : (m.setClock time).At before [] :=
    ⟨by rw [← split, ← loaded.program, ← carries.store]; rfl, place⟩
  have ticked := tick_of_at_nil (carries.isDue patient) standing
  rw [enterState_of_quiet (by exact carries.quiet)] at ticked
  rw [ticked]
  exact ⟨rfl, carries.vars, carries.outbox⟩

end Stands

namespace Course

variable {course : Nat → Machine}

/-- A program that has stopped does not run again. -/
theorem eq_setClock_of_not_isRunning (turns : Course course) {j : Nat}
    (idle : (course j).isRunning = false) :
    ∃ time, course (j + 1) = (course j).setClock time := by
  obtain ⟨time, -, next⟩ := turns j
  exact ⟨time, next.trans (tick_of_not_isRunning idle)⟩

/-- A program that runs has been running all the time. -/
theorem isRunning_of_le (turns : Course course) {j k : Nat} (le : j ≤ k)
    (running : (course k).isRunning = true) : (course j).isRunning = true := by
  induction le with
  | refl => exact running
  | step _ ih =>
    refine ih ?_
    by_contra idle
    obtain ⟨time, next⟩ := turns.eq_setClock_of_not_isRunning (Bool.eq_false_iff.mpr idle)
    rw [next] at running
    exact idle running

end Course

/-- The machine of a course meets the result of a script from turn `t` on. It comes to stand in
front of the code after the script or, when the script was broken off, in front of the label that
is jumped to, wherever that is declared. If the script runs on beyond a bound, so does the
machine. -/
def Meets (base : Machine) (code : List Instruction) (course : Nat → Machine) (top : Nat)
    (after : List Instruction) (t bound : Nat) : Option (Ending × Memory) → Prop
  | none => (course (t + bound)).isRunning = true
  | some (.finished, memory) => ∃ u, t ≤ u ∧ Stands base code after memory (course u)
  | some (.broke, memory) => ∀ target, .declare (top + 1) :: target <:+ code →
    ∃ u, t ≤ u ∧ Stands base code (.declare (top + 1) :: target) memory (course u)
  | some (.continued, memory) => ∀ target, .declare top :: target <:+ code →
    ∃ u, t ≤ u ∧ Stands base code (.declare top :: target) memory (course u)

variable {course : Nat → Machine} {top t u bound : Nat} {after : List Instruction}

/-- What is met later is met. -/
theorem Meets.earlier (turns : Course course) {result : Option (Ending × Memory)} (later : t < u)
    (meets : Meets base code course top after u bound result) :
    Meets base code course top after t (bound + 1) result := by
  match result with
  | none => exact turns.isRunning_of_le (by omega) meets
  | some (.finished, _) =>
    obtain ⟨v, le, stands⟩ := meets
    exact ⟨v, by omega, stands⟩
  | some (.broke, _) | some (.continued, _) =>
    intro target declared
    obtain ⟨v, le, stands⟩ := meets target declared
    exact ⟨v, by omega, stands⟩

/-- What comes after a part of a script is met if it is met from where the part ends. -/
theorem Meets.bind (turns : Course course) {inner : Nat} {tail : List Instruction}
    {result : Option (Ending × Memory)} {later : Ending × Memory → Option (Ending × Memory)}
    (lt : t < u) (meets : Meets base code course inner tail u bound result)
    (onward : ∀ ending memory, Meets base code course inner tail u bound (some (ending, memory)) →
      Meets base code course top after t (bound + 1) (later (ending, memory))) :
    Meets base code course top after t (bound + 1) (result.bind later) := by
  match result with
  | none =>
    have running : Meets base code course top after u bound none := meets
    exact running.earlier turns lt
  | some (ending, memory) => exact onward ending memory meets

/-- A branch of a conditional comes to its end, or it leaves or repeats the loop around it. -/
theorem Meets.bind_branch (turns : Course course) {tail : List Instruction}
    {result : Option (Ending × Memory)} {later : Ending × Memory → Option (Ending × Memory)}
    (lt : t < u) (meets : Meets base code course top tail u bound result)
    (finished : ∀ v memory, u ≤ v → Stands base code tail memory (course v) →
      Meets base code course top after t (bound + 1) (later (.finished, memory)))
    (other : ∀ ending memory, ending ≠ .finished →
      later (ending, memory) = some (ending, memory)) :
    Meets base code course top after t (bound + 1) (result.bind later) := by
  refine meets.bind turns lt fun ending memory met => ?_
  cases ending with
  | finished =>
    obtain ⟨v, le, stands⟩ := met
    exact finished v memory le stands
  | broke =>
    rw [other .broke memory (by decide)]
    exact met.earlier turns lt
  | continued =>
    rw [other .continued memory (by decide)]
    exact met.earlier turns lt

/-- The body of a loop comes to its end, leaves the loop or repeats it. -/
theorem Meets.bind_body (turns : Course course) {inner : Nat} {tail body rest : List Instruction}
    {result : Option (Ending × Memory)} {later : Ending × Memory → Option (Ending × Memory)}
    (lt : t < u) (meets : Meets base code course inner tail u bound result)
    (again : .declare inner :: body <:+ code) (exit : .declare (inner + 1) :: rest <:+ code)
    (finished : ∀ v memory, u ≤ v → Stands base code tail memory (course v) →
      Meets base code course top after t (bound + 1) (later (.finished, memory)))
    (broke : ∀ v memory, u ≤ v →
      Stands base code (.declare (inner + 1) :: rest) memory (course v) →
        Meets base code course top after t (bound + 1) (later (.broke, memory)))
    (continued : ∀ v memory, u ≤ v → Stands base code (.declare inner :: body) memory (course v) →
      Meets base code course top after t (bound + 1) (later (.continued, memory))) :
    Meets base code course top after t (bound + 1) (result.bind later) := by
  refine meets.bind turns lt fun ending memory met => ?_
  cases ending with
  | finished =>
    obtain ⟨v, le, stands⟩ := met
    exact finished v memory le stands
  | broke =>
    obtain ⟨v, le, stands⟩ := met rest exit
    exact broke v memory le stands
  | continued =>
    obtain ⟨v, le, stands⟩ := met body again
    exact continued v memory le stands

namespace Stands

/-- A declaration is passed. -/
theorem passes (loaded : Loaded base code) (turns : Course course) {label : Nat}
    (stands : Stands base code (.declare label :: rest) memory (course t)) :
    Stands base code rest memory (course (t + 1)) := by
  obtain ⟨time, patient, turned⟩ := turns t
  rw [turned]
  exact stands.turn_declare loaded patient

/-- A jump is taken. -/
theorem jumps (loaded : Loaded base code) (turns : Course course) {label : Nat}
    {target : List Instruction}
    (stands : Stands base code (.jump label :: rest) memory (course t))
    (declared : .declare label :: target <:+ code) :
    Stands base code (.declare label :: target) memory (course (t + 1)) := by
  obtain ⟨time, patient, turned⟩ := turns t
  rw [turned]
  exact stands.turn_jump loaded patient declared

/-- A jump on a condition is taken or not. -/
theorem branches (loaded : Loaded base code) (turns : Course course) {holds : Condition}
    {label : Nat} {target : List Instruction}
    (stands : Stands base code (.jumpUnless holds label :: rest) memory (course t))
    (declared : .declare label :: target <:+ code) :
    if holds.passes (memory.scope base.readings) then
      Stands base code rest memory (course (t + 1))
    else Stands base code (.declare label :: target) memory (course (t + 1)) := by
  obtain ⟨time, patient, turned⟩ := turns t
  rw [turned]
  exact stands.turn_jumpUnless loaded patient declared

/-- Instructions that go on at the next one are executed one after the other. -/
theorem exists_of_plain (loaded : Loaded base code) (turns : Course course)
    {first : List Instruction} (plain : ∀ i ∈ first, i.IsPlain)
    (stands : Stands base code (first ++ rest) memory (course t)) :
    ∃ u, t + first.length ≤ u ∧ Stands base code rest
      (first.foldl (fun memory i => i.work base.readings memory) memory) (course u) := by
  induction first generalizing memory t with
  | nil => exact ⟨t, le_rfl, stands⟩
  | cons i first ih =>
    obtain ⟨time, patient, turned⟩ := turns t
    have next := stands.turn_plain loaded (plain i List.mem_cons_self) patient
    rw [← turned] at next
    obtain ⟨u, le, reached⟩ := ih (fun j member => plain j (List.mem_cons_of_mem i member)) next
    exact ⟨u, by rw [List.length_cons]; omega, reached⟩

theorem suffix (stands : Stands base code rest memory m) : rest <:+ code := by
  obtain ⟨-, before, split, -⟩ := stands
  exact ⟨before, split.symm⟩

end Stands

/-- The machine of a course meets the result of every script within a bound. -/
def MeetsAll (base : Machine) (code : List Instruction) (course : Nat → Machine) (bound : Nat) :
    Prop :=
  ∀ {s : Script} {memory : Memory} {next top t : Nat} {after : List Instruction},
    Stands base code (s.code next top ++ after) memory (course t) →
      Meets base code course top after t bound (s.run base.readings bound memory)

namespace MeetsAll

variable {next : Nat} {holds : Condition} {body other rest : Script}
  (all : MeetsAll base code course bound) (loaded : Loaded base code) (turns : Course course)
include all loaded turns

/-- Behind a label that ends a block, the rest of the script is run. -/
theorem behind {label : Nat} (le : t ≤ u)
    (stands : Stands base code (.declare label :: (rest.code next top ++ after)) memory
      (course u)) :
    Meets base code course top after t (bound + 1) (rest.run base.readings bound memory) :=
  (all (stands.passes loaded turns)).earlier turns (Nat.lt_succ_of_le le)

theorem ifThen
    (stands : Stands base code ((Script.ifThen holds body rest).code next top ++ after) memory
      (course t)) :
    Meets base code course top after t (bound + 1)
      ((Script.ifThen holds body rest).run base.readings (bound + 1) memory) := by
  simp only [Script.code, List.cons_append, List.append_assoc] at stands
  have declared : .declare next :: (rest.code (next + 2 + body.labels) top ++ after) <:+ code :=
    (List.suffix_append _ _).trans ((List.suffix_cons _ _).trans stands.suffix)
  have branched := stands.branches loaded turns declared
  simp only [Script.run]
  split at branched
  · next holds =>
    rw [if_pos holds]
    refine (all branched).bind_branch turns t.lt_succ_self (fun v memory le ended => ?_)
      fun _ _ other => if_neg other
    exact all.behind loaded turns (by omega) ended
  · next fails =>
    rw [if_neg fails]
    exact all.behind loaded turns t.le_succ branched

theorem ifElse
    (stands : Stands base code ((Script.ifElse holds body other rest).code next top ++ after)
      memory (course t)) :
    Meets base code course top after t (bound + 1)
      ((Script.ifElse holds body other rest).run base.readings (bound + 1) memory) := by
  simp only [Script.code, List.cons_append, List.append_assoc] at stands
  have inOther := (List.suffix_cons _ _).trans ((List.suffix_append _ _).trans
    ((List.suffix_cons _ _).trans stands.suffix))
  have declared := (List.suffix_append _ _).trans ((List.suffix_cons _ _).trans inOther)
  have branched := stands.branches loaded turns inOther
  simp only [Script.run]
  split at branched
  · next holds =>
    rw [if_pos holds]
    refine (all branched).bind_branch turns t.lt_succ_self (fun v memory le ended => ?_)
      fun _ _ other => if_neg other
    -- The first branch ends with a jump over the second.
    exact all.behind loaded turns (by omega) (ended.jumps loaded turns declared)
  · next fails =>
    rw [if_neg fails]
    have entered := branched.passes loaded turns
    refine (all entered).bind_branch turns (by omega) (fun v memory le ended => ?_)
      fun _ _ other => if_neg other
    exact all.behind loaded turns (by omega) ended

theorem whileLoop
    (stands : Stands base code ((Script.whileLoop holds body rest).code next top ++ after) memory
      (course t)) :
    Meets base code course top after t (bound + 1)
      ((Script.whileLoop holds body rest).run base.readings (bound + 1) memory) := by
  -- The loop is run again from its top, where less of the bound is left.
  have again {u : Nat} {memory : Memory} (lt : t < u)
      (atTop : Stands base code ((Script.whileLoop holds body rest).code next top ++ after)
        memory (course u)) :=
    (all atTop).earlier turns lt
  simp only [Script.code, List.cons_append, List.append_assoc] at stands again
  -- The declaration behind the loop is a suffix of the loaded code.
  have exit := (List.suffix_cons _ _).trans ((List.suffix_append _ _).trans
    ((List.suffix_cons _ _).trans ((List.suffix_cons _ _).trans stands.suffix)))
  have branched := (stands.passes loaded turns).branches loaded turns exit
  simp only [Script.run]
  split at branched
  · next holds =>
    rw [if_pos holds]
    exact (all branched).bind_body turns (by omega) stands.suffix exit
      (fun v memory le ended => again (by omega) (ended.jumps loaded turns stands.suffix))
      (fun v memory le left => all.behind loaded turns (by omega) left)
      fun v memory le back => again (by omega) back
  · next fails =>
    rw [if_neg fails]
    exact all.behind loaded turns (by omega) branched

theorem foreverLoop
    (stands : Stands base code ((Script.foreverLoop body rest).code next top ++ after) memory
      (course t)) :
    Meets base code course top after t (bound + 1)
      ((Script.foreverLoop body rest).run base.readings (bound + 1) memory) := by
  have again {u : Nat} {memory : Memory} (lt : t < u)
      (atTop : Stands base code ((Script.foreverLoop body rest).code next top ++ after) memory
        (course u)) :=
    (all atTop).earlier turns lt
  simp only [Script.code, List.cons_append, List.append_assoc] at stands again
  have exit := (List.suffix_cons _ _).trans ((List.suffix_append _ _).trans
    ((List.suffix_cons _ _).trans stands.suffix))
  have entered := stands.passes loaded turns
  exact (all entered).bind_body turns t.lt_succ_self stands.suffix exit
    (fun v memory le ended => again (by omega) (ended.jumps loaded turns stands.suffix))
    (fun v memory le left => all.behind loaded turns (by omega) left)
    fun v memory le back => again (by omega) back

theorem doUntil
    (stands : Stands base code ((Script.doUntil body holds rest).code next top ++ after) memory
      (course t)) :
    Meets base code course top after t (bound + 1)
      ((Script.doUntil body holds rest).run base.readings (bound + 1) memory) := by
  have again {u : Nat} {memory : Memory} (lt : t < u)
      (atTop : Stands base code ((Script.doUntil body holds rest).code next top ++ after) memory
        (course u)) :=
    (all atTop).earlier turns lt
  simp only [Script.code, List.cons_append, List.append_assoc] at stands again
  have exit := (List.suffix_cons _ _).trans ((List.suffix_append _ _).trans
    ((List.suffix_cons _ _).trans stands.suffix))
  have entered := stands.passes loaded turns
  refine (all entered).bind_body turns t.lt_succ_self stands.suffix exit
    (fun v memory le ended => ?_)
    (fun v memory le left => all.behind loaded turns (by omega) left)
    fun v memory le back => again (by omega) back
  -- Only the end of the body comes to the condition.
  have branched := ended.branches loaded turns stands.suffix
  split at branched
  · next holds =>
    simp only [holds, and_true, if_true, reduceCtorEq, if_false]
    exact all.behind loaded turns (by omega) branched
  · next fails =>
    simp only [fails, and_false, if_false, reduceCtorEq]
    exact again (by omega) branched

end MeetsAll

/-- A machine meets the result of running a script. The induction is on the bound, because the
code of a loop is run again from its top. -/
theorem meets_run (loaded : Loaded base code) (turns : Course course)
    (noRaw : ∀ statement, .raw statement ∉ code) {s : Script} {next : Nat}
    (stands : Stands base code (s.code next top ++ after) memory (course t)) :
    Meets base code course top after t bound (s.run base.readings bound memory) := by
  induction bound generalizing s memory next top after t with
  | zero => exact stands.carries.running
  | succ bound ih =>
    have all : MeetsAll base code course bound := ih
    cases s with
    | done => exact ⟨t, le_rfl, stands⟩
    | action a rest =>
      rw [Script.code, List.append_assoc] at stands
      have interpreted : ∀ statement, a ≠ .raw statement := by
        rintro statement rfl
        exact noRaw statement (stands.suffix.subset List.mem_cons_self)
      obtain ⟨nonempty, plain⟩ := Action.isPlain_of_mem_code interpreted
      obtain ⟨u, le, reached⟩ := stands.exists_of_plain loaded turns plain
      rw [← Action.perform_eq_foldl] at reached
      have positive := List.length_pos_iff.mpr nonempty
      exact (all reached).earlier turns (by omega)
    | breakLoop rest | continueLoop rest =>
      intro target declared
      exact ⟨t + 1, Nat.le_succ t, stands.jumps loaded turns declared⟩
    | ifThen holds body rest => exact all.ifThen loaded turns stands
    | ifElse holds body other rest => exact all.ifElse loaded turns stands
    | whileLoop holds body rest => exact all.whileLoop loaded turns stands
    | foreverLoop body rest => exact all.foreverLoop loaded turns stands
    | doUntil body holds rest => exact all.doUntil loaded turns stands

end ControlScript.Machine
