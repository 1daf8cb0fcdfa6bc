import ControlScript.Proofs.Changes
import ControlScript.Proofs.Tables
import ControlScript.Proofs.Ticks

/-!
# Statements that fail

A statement may stop at many places: at a name, at an operand, in the arithmetic, at a table that
is full, at a label that is not there. Nothing is undone then, and nothing has to be. All but two
statements look at the machine first and change it at the end, where they no longer fail: so one
that stops has done nothing but tell its destination, and perhaps toss the coin. The two that are
left stop the program before they go to the store, which may fail.

## Main definitions

* `Attempt.Reads` — a computation that leaves the state as it is
* `Attempt.StopsClean` — a computation that leaves the state as it is where it stops
* `Machine.Fruitless` — nothing has come of a statement

## Main results

* `Attempt.Reads.bind_stopsClean` — what stops has only looked, as long as changes come last
* `Machine.eq_of_perform_error` — an opcode that fails
* `Machine.fruitless_of_fault` — a statement that fails, live or stored
-/

namespace ControlScript

open Attempt

namespace Attempt

variable {σ τ α β : Type}

/-- A computation that leaves the state as it is. -/
def Reads (x : Attempt σ α) : Prop := ∀ s, reached (x s) = s

/-- A computation that leaves the state as it is where it stops. -/
def StopsClean (x : Attempt σ α) : Prop := ∀ s f t, x s = .error f t → t = s

theorem Reads.stopsClean {x : Attempt σ α} (reads : x.Reads) : x.StopsClean := by
  intro s f t failed
  have same := reads s
  rwa [failed] at same

theorem reads_pure (a : α) : (pure a : Attempt σ α).Reads := fun _ => rfl

theorem reads_get : (get : Attempt σ σ).Reads := fun _ => rfl

theorem reads_fail (cause : Cause) : (fail cause : Attempt σ α).Reads := fun _ => rfl

theorem Reads.bind {x : Attempt σ α} {next : α → Attempt σ β} (first : x.Reads)
    (second : ∀ a, (next a).Reads) : (x >>= next).Reads := by
  intro s
  have same := first s
  rw [bind_apply]
  cases done : x s with
  | ok a t =>
    rw [done] at same
    exact (second a t).trans same
  | error f t =>
    rw [done] at same
    exact same

/-- What only looks at the state first stops clean if the rest does. -/
theorem Reads.bind_stopsClean {x : Attempt σ α} {next : α → Attempt σ β} (first : x.Reads)
    (second : ∀ a, (next a).StopsClean) : (x >>= next).StopsClean := by
  intro s f t failed
  have same := first s
  rw [bind_apply] at failed
  cases done : x s with
  | ok a u =>
    rw [done] at same failed
    exact (second a u f t failed).trans same
  | error g u =>
    rw [done] at same failed
    cases failed
    exact same

/-- What does not stop at all stops clean. -/
theorem stopsClean_modify (f : σ → σ) : (modify f : Attempt σ PUnit).StopsClean := by
  intro s g t failed
  cases failed

theorem stopsClean_set (new : σ) : (set new : Attempt σ PUnit).StopsClean := by
  intro s g t failed
  cases failed

theorem StopsClean.ite {condition : Prop} [Decidable condition] {x y : Attempt σ α}
    (first : x.StopsClean) (second : y.StopsClean) : (if condition then x else y).StopsClean := by
  split
  · exact first
  · exact second

end Attempt

/-- A variable that was found or made is there to be given a value. -/
theorem Variables.exists_set_eq {vs ws : Variables} {name : Bytes} {place : Nat × Nat}
    (made : findOrCreate name vs = .ok place ws) (value : Value) :
    ∃ after, set place.1 value ws = .ok () after := by
  obtain ⟨v, there⟩ : ∃ v, ws.inSlot? place.1 = some v :=
    ⟨_, List.getElem?_eq_getElem (lt_size_of_find (find_made made))⟩
  rw [set, there]
  exact ⟨_, rfl⟩

namespace Machine

open Command

variable {m n : Machine} {statement : Bytes} {dest : Destination} {f : Fault}

theorem reads_scanning {α : Type} (x : Scan α) (text : Bytes) : (scanning x text).Reads :=
  reached_scanning x text

theorem reads_expression (text : Bytes) : (expression text).Reads :=
  reads_get.bind fun _ => (reads_scanning _ text).bind fun _ => reads_pure _

theorem stopsClean_write (dest : Destination) (output : Output) : (write dest output).StopsClean :=
  stopsClean_modify _

theorem stopsClean_jump (label : Bytes) : (jump label).StopsClean := by
  refine reads_get.bind_stopsClean fun m => ?_
  split
  · exact (reads_fail _).stopsClean
  · exact stopsClean_set _

theorem stopsClean_branch (outcome : Bool) (args : Bytes) : (branch outcome args).StopsClean :=
  reads_get.bind_stopsClean fun _ => (reads_scanning _ args).bind_stopsClean fun _ =>
    (stopsClean_jump _).ite (reads_pure _).stopsClean

theorem stopsClean_delay (args : Bytes) : (delay args).StopsClean :=
  (reads_expression args).bind_stopsClean fun _ => stopsClean_modify _

theorem stopsClean_startProgram (dest : Destination) : (startProgram dest).StopsClean :=
  reads_get.bind_stopsClean fun _ => (reads_fail _).stopsClean.ite (stopsClean_set _)

/-- A value is read before a variable is made for it, and a variable that was made takes it. -/
theorem stopsClean_setVariable (args : Bytes) : (setVariable args).StopsClean := by
  refine reads_get.bind_stopsClean fun _ => (reads_scanning _ args).bind_stopsClean
    fun ((name, value), _) => ?_
  intro m f n failed
  simp only [bind_apply, onVariables, Attempt.on] at failed
  cases made : Variables.findOrCreate name m.vars with
  | error g vars =>
    rw [made] at failed
    cases failed
    rw [eq_of_findOrCreate_error made]
  | ok place vars =>
    obtain ⟨after, given⟩ := Variables.exists_set_eq made value
    rw [made] at failed
    simp only [given] at failed
    cases failed

theorem stopsClean_viewVariable (args : Bytes) (dest : Destination) :
    (viewVariable args dest).StopsClean := by
  refine (reads_scanning _ args).bind_stopsClean fun _ => reads_get.bind_stopsClean fun _ =>
    Reads.bind_stopsClean (reached_ofExcept _) fun _ => ?_
  dsimp only
  split <;> exact stopsClean_write _ _

/-- A toss of the coin counts even if there is no place to go on at. -/
theorem eq_of_coinToss_error {args : Bytes} (failed : coinToss args m = .error f n) :
    n = m ∨ n = { m with coin := m.coin.toss } := by
  unfold coinToss at failed
  rw [bind_apply] at failed
  have same := reached_scanning Scan.label args m
  cases read : scanning Scan.label args m with
  | error g k =>
    rw [read] at same failed
    cases failed
    exact .inl same
  | ok label k =>
    rw [read] at same failed
    obtain rfl : k = m := same
    -- From here on the coin has been tossed, and the jump leaves the machine that it is tossed in.
    exact .inr (((stopsClean_jump label.1).ite (reads_pure ()).stopsClean) _ _ _ failed)

/-- An opcode that fails has done nothing, or it has tossed the coin. -/
theorem eq_of_perform_error {op : Opcode} {args : Bytes} {origin : Origin}
    (noBegin : op ≠ .beginDownload) (noClear : op ≠ .clearProgram)
    (failed : perform op args origin dest m = .error f n) :
    n = m ∨ op = .coinToss ∧ n = { m with coin := m.coin.toss } := by
  unfold perform at failed
  split at failed
  · cases failed
    exact .inl rfl
  cases op with
  | beginDownload => exact absurd rfl noBegin
  | clearProgram => exact absurd rfl noClear
  | coinToss =>
    exact (eq_of_coinToss_error failed).imp_right fun tossed => ⟨rfl, tossed⟩
  | delay => exact .inl (stopsClean_delay args _ _ _ failed)
  | jump =>
    exact .inl ((reads_scanning _ args).bind_stopsClean (fun _ => stopsClean_jump _) _ _ _ failed)
  | jumpIfTrue => exact .inl (stopsClean_branch true args _ _ _ failed)
  | jumpIfFalse => exact .inl (stopsClean_branch false args _ _ _ failed)
  | start => exact .inl (stopsClean_startProgram dest _ _ _ failed)
  | setVariable => exact .inl (stopsClean_setVariable args _ _ _ failed)
  | viewVariable => exact .inl (stopsClean_viewVariable args dest _ _ _ failed)
  | writeValue =>
    exact .inl
      ((reads_expression args).bind_stopsClean (fun _ => stopsClean_write _ _) _ _ _ failed)
  | diagnostics =>
    exact .inl
      ((reads_expression args).bind_stopsClean (fun _ => stopsClean_modify _) _ _ _ failed)
  -- The others do not fail.
  | label | halt | pause | resume | endDownload | abortDownload | clearVariables | writeText
  | writeLine | version | status | comment => cases failed

/-! ### Statements without an effect -/

/-- Nothing has come of a statement but output for its destination and, if it is one that tosses the
coin, at most one toss. -/
structure Fruitless (statement : Bytes) (dest : Destination) (m n : Machine) : Prop where
  coin : n.coin = m.coin ∨
    Opcode.ofStatement? statement = some .coinToss ∧ n.coin = m.coin.toss
  output : ∃ later, n.outbox = m.outbox ++ later ∧ ∀ d ∈ later, d.destination = dest
  others : n = { m with coin := n.coin, outbox := n.outbox }

namespace Fruitless

theorem refl (statement : Bytes) (dest : Destination) (m : Machine) :
    Fruitless statement dest m m where
  coin := .inl rfl
  output := ⟨#[], by simp⟩
  others := rfl

/-- Nothing more comes of a statement by telling its destination of it. -/
theorem diagnose (fruitless : Fruitless statement dest m n) (level : Nat) (text : String) :
    Fruitless statement dest m (n.diagnose level dest text) := by
  unfold Machine.diagnose
  split
  · obtain ⟨later, added, addressed⟩ := fruitless.output
    refine ⟨fruitless.coin, ⟨later.push ⟨dest, .diagnostic text⟩, ?_, ?_⟩, ?_⟩
    · simp [deliver, added]
    · intro d member
      rcases Array.mem_push.mp member with before | rfl
      · exact addressed d before
      · rfl
    · exact congrArg (fun k : Machine => k.deliver dest (.diagnostic text)) fruitless.others
  · exact fruitless

/-- The coin is tossed by a statement that has not tossed it yet. -/
theorem toss (fruitless : Fruitless statement dest m n) (untossed : n.coin = m.coin)
    (tosses : Opcode.ofStatement? statement = some .coinToss) :
    Fruitless statement dest m { n with coin := n.coin.toss } where
  coin := .inr ⟨tosses, congrArg Coin.toss untossed⟩
  output := fruitless.output
  others := congrArg (fun k : Machine => { k with coin := n.coin.toss }) fruitless.others

/-- A statement that fails tells its destination, and nothing more comes of it. -/
theorem execute {origin : Origin} (noBegin : Opcode.ofStatement? statement ≠ some .beginDownload)
    (noClear : Opcode.ofStatement? statement ≠ some .clearProgram)
    (failed : fault? (m.attempt statement origin dest) = some f) :
    Fruitless statement dest m (m.execute statement origin dest) := by
  rw [execute_eq, failed]
  apply diagnose
  unfold attempt at failed ⊢
  dsimp only at failed ⊢
  have shown := (refl statement dest m).diagnose 3 (Utf8.decode statement)
  have untossed : (m.diagnose 3 dest (Utf8.decode statement)).coin = m.coin := by
    unfold Machine.diagnose
    split <;> rfl
  cases named : Opcode.ofStatement? statement with
  | none =>
    rw [named] at failed
    cases failed
  | some op =>
    rw [named] at failed noBegin noClear
    dsimp only at failed ⊢
    cases performed : perform op (statement.drop 2) origin dest
        (m.diagnose 3 dest (Utf8.decode statement)) with
    | ok _ n =>
      rw [performed] at failed
      cases failed
    | error g n =>
      rcases eq_of_perform_error (noBegin <| congrArg some ·) (noClear <| congrArg some ·) performed
        with rfl | ⟨rfl, rfl⟩
      · exact shown
      · exact shown.toss untossed named

end Fruitless

/-- A tick that reports a fault has come to a stored statement and done nothing beyond moving on
behind it. -/
theorem fruitless_tick {fetched : Fetched} (due : m.IsDue)
    (found : m.store.fetch? m.pc m.limits.statementLength = some fetched)
    (noBegin : Opcode.ofStatement? fetched.text ≠ some .beginDownload)
    (noClear : Opcode.ofStatement? fetched.text ≠ some .clearProgram)
    (failed : m.tickFault? = some f) :
    Fruitless fetched.text m.owner (m.goneTo fetched.next) m.tick := by
  rw [tick_of_fetch? due found]
  rw [tickFault?, if_pos due, found, Option.bind_some, taken] at failed
  by_cases long : fetched.truncated = true
  · rw [if_pos long]
    exact (Fruitless.refl _ _ _).diagnose 1 _
  · rw [if_neg long] at failed ⊢
    cases attempted : (m.goneTo fetched.next).attempt fetched.text .program m.owner with
    | ok _ n =>
      rw [attempted] at failed
      cases failed
    | error g n =>
      have stopped : fault? ((m.goneTo fetched.next).attempt fetched.text .program m.owner) =
          some g := by
        rw [attempted]
        rfl
      exact Fruitless.execute noBegin noClear stopped

/-- A statement that fails has no effect, whoever it comes from: its destination is told, and one
that tosses the coin may have tossed it. This goes for a statement by itself, for one whose last
byte comes in, and for one that a tick takes up, which moves on behind it first. -/
theorem fruitless_of_fault (m : Machine) {statement : Bytes}
    (noBegin : Opcode.ofStatement? statement ≠ some .beginDownload)
    (noClear : Opcode.ofStatement? statement ≠ some .clearProgram) :
    (∀ origin dest, fault? (m.attempt statement origin dest) ≠ none →
      Fruitless statement dest m (m.execute statement origin dest)) ∧
    (∀ dest, m.device = .executeImmediately → m.discarding = false → m.line = statement →
      fault? ({ m with line := [] }.attempt statement .live dest) ≠ none →
        Fruitless statement dest { m with line := [] } (m.receive Byte.statementEnd dest)) ∧
    ∀ fetched, m.IsDue → m.store.fetch? m.pc m.limits.statementLength = some fetched →
      fetched.text = statement → m.tickFault? ≠ none →
        Fruitless statement m.owner (m.goneTo fetched.next) m.tick := by
  refine ⟨fun origin dest failed => ?_, fun dest device kept own failed => ?_,
    fun fetched due found own failed => ?_⟩
  · obtain ⟨f, failed⟩ := Option.ne_none_iff_exists'.mp failed
    exact .execute noBegin noClear failed
  · have nonempty : m.line ≠ [] := by
      rw [own]
      rintro rfl
      exact failed rfl
    have received : m.receive Byte.statementEnd dest =
        { m with line := [] }.execute statement .live dest := by
      simp only [receive, device, assemble, if_pos]
      rw [if_neg (by simp [kept, nonempty]), own, ← kept]
    obtain ⟨f, failed⟩ := Option.ne_none_iff_exists'.mp failed
    rw [received]
    exact .execute noBegin noClear failed
  · subst own
    obtain ⟨f, failed⟩ := Option.ne_none_iff_exists'.mp failed
    exact fruitless_tick due found noBegin noClear failed

/-- `VSx=1/0` fails for a machine that it comes in at and whose program starts with it. -/
theorem fruitless_of_division_by_zero :
    let statement : Bytes := [0x56, 0x53, 0x78, 0x3D, 0x31, 0x2F, 0x30]
    let m : Machine := {
      ofLimits {} (.ofBytes 16 (statement ++ [Byte.statementEnd])) 0 with
      line := statement
      program := .active }
    Opcode.ofStatement? statement ≠ some .beginDownload ∧
      Opcode.ofStatement? statement ≠ some .clearProgram ∧
      Fruitless statement 1 m (m.execute statement .live 1) ∧
      Fruitless statement 1 { m with line := [] } (m.receive Byte.statementEnd 1) ∧
      Fruitless statement console (m.goneTo 8) m.tick := by
  intro statement m
  have noBegin : Opcode.ofStatement? statement ≠ some .beginDownload := by decide
  have noClear : Opcode.ofStatement? statement ≠ some .clearProgram := by decide
  obtain ⟨executed, received, taken⟩ := fruitless_of_fault m noBegin noClear
  have found : m.store.fetch? m.pc m.limits.statementLength =
      some { next := 8, truncated := false, text := statement } := by decide
  exact ⟨noBegin, noClear, executed .live 1 (by decide), received 1 rfl rfl rfl (by decide),
    taken _ (.inl rfl) found rfl (by decide)⟩

end Machine

end ControlScript
