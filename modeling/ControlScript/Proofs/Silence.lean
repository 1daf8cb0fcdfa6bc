import ControlScript.Proofs.Correctness

/-!
# What a program shows while it is entered

While a program is entered, a machine remarks on the program and reports what does not fit in the
store. As long as only faults are shown and the program has room, nothing is shown at all.

## Main definitions

* `Machine.Stows` — one machine is another that has taken bytes for its store

## Main results

* `Machine.Filling.stows` — bytes for which there is room
* `Session.outbox_of_entered` — a program that is accepted and has room
-/

namespace ControlScript

open Instruction

namespace Machine

variable {m n : Machine} {dest : Destination}

/-- Whether a machine is another that has taken bytes for its store. -/
def Stows (m n : Machine) : Prop := ∃ filter store, n = { m with filter, store }

theorem Stows.trans {k : Machine} (first : Stows k m) (second : Stows m n) : Stows k n := by
  obtain ⟨_, _, rfl⟩ := first
  obtain ⟨filter, store, rfl⟩ := second
  exact ⟨filter, store, rfl⟩

theorem Stows.outbox (stows : Stows m n) : n.outbox = m.outbox := by
  obtain ⟨_, _, rfl⟩ := stows
  rfl

/-- As long as only faults are shown, there are no remarks. -/
theorem remark_of_terse (terse : m.diagnostics ≤ 1) (dest : Destination) (text : String) :
    m.remark dest text = m :=
  if_neg (show ¬2 ≤ m.diagnostics by omega)

theorem enterState_of_terse (terse : m.diagnostics ≤ 1) (state : ProgramState)
    (dest : Destination) : m.enterState state dest = { m with program := state } := by
  unfold enterState
  split
  · next same => rw [← same]
  · exact remark_of_terse (m := { m with program := state }) terse dest _

/-- The statement that begins a download shows nothing. -/
theorem outbox_of_beginDownload (idle : Idle m) (two : 2 ≤ m.limits.statementLength)
    (terse : m.diagnostics ≤ 1) (reliable : m.store.medium.IsReliable) (dest : Destination) :
    (m.receiveAll (Instruction.encode [.beginDownload]) dest).outbox = m.outbox := by
  obtain ⟨medium, -, cleared⟩ := Store.exists_clear_eq reliable
  have plain : ∀ b ∈ Opcode.beginDownload.code, Byte.isControl b = false := by decide +kernel
  have opcode : Opcode.ofStatement? Opcode.beginDownload.code = some .beginDownload := by decide
  have received : m.receiveAll (Instruction.encode [.beginDownload]) dest =
      m.execute Opcode.beginDownload.code .live dest :=
    receiveAll_statement idle plain (by decide) two dest
  have performed : ∃ n, beginDownload dest m = .ok () n ∧ n.outbox = m.outbox := by
    simp only [beginDownload, Attempt.bind_apply, Attempt.modify_apply, Command.onStore,
      enterState_of_terse terse, Attempt.on, Store.beginDownload, cleared]
    refine ⟨_, rfl, ?_⟩
    rw [remark_of_terse (by exact terse)]
  obtain ⟨n, performed, same⟩ := performed
  have executed : m.execute Opcode.beginDownload.code .live dest = n := by
    have silent : m.diagnose 3 dest (Utf8.decode Opcode.beginDownload.code) = m :=
      if_neg (show ¬3 ≤ m.diagnostics by omega)
    exact execute_of_ok silent opcode performed
  rw [received, executed, same]

namespace Filling

variable {room : Nat} {place : DownloadPlace} {content bytes : Bytes}

/-- Bytes for which there is room are only stored. -/
theorem stows (filling : Filling room place content m) (reach : ReachAll place bytes)
    (fits : (content ++ bytes).length < room) (dest : Destination) :
    Stows m (m.receiveAll bytes dest) := by
  induction bytes generalizing m place content with
  | nil => exact ⟨m.filter, m.store, rfl⟩
  | cons b bytes ih =>
    obtain ⟨reaches, later⟩ := reach
    have next := filling.byte reaches dest
    rw [← filling.receive_eq_download] at next
    rw [List.append_cons] at fits
    have within : content.length + 1 < room := by
      simp only [List.length_append, List.length_singleton] at fits
      omega
    have first : Stows m (m.receive b dest) := by
      obtain ⟨fitting, cursor, -⟩ := filling.fits (Nat.lt_of_succ_lt within)
      have processed := process_of_reaches (filling.place ▸ reaches) m.store
      simp only [DownloadFilter.keep, fitting, Bool.false_eq_true, if_false, Store.append,
        filling.capacity, cursor, if_neg (Nat.not_le_of_lt within)] at processed
      rw [filling.receive_eq_download, download_of_more processed]
      exact ⟨_, _, rfl⟩
    exact first.trans (ih next later fits)

/-- The end of a download that fits shows nothing. -/
theorem outbox_of_endDownload (filling : Filling room .lineStart content m)
    (fits : content.length < room) (terse : m.diagnostics ≤ 1) (dest : Destination) :
    (m.receiveAll (Instruction.encode [.endDownload]) dest).outbox = m.outbox := by
  have got := filling.gotR dest
  rw [filling.receive_eq_gotR] at got
  obtain ⟨medium, finished⟩ := got.exists_download_eq fits dest
  have received : m.receiveAll (Instruction.encode [.endDownload]) dest =
      ((m.receive 0x52 dest).receive 0x58 dest).receive Byte.statementEnd dest := rfl
  rw [received, filling.receive_eq_gotR, got.receive_eq_download, finished,
    remark_of_terse (by exact terse), start, enterState_of_terse (by exact terse),
    receive_of_discarding rfl rfl]
  rfl

end Filling

end Machine

namespace Session

variable {s : Session} {room : Nat} {code : List Instruction} {text opening closing : String}
variable {body : List String}

/-- What is stored while a program is entered. -/
theorem Underway.stored_emitted (underway : Underway room code s) :
    stored s.emitted = encode code := by
  have nothing : stored [.beginDownload] = [] := by decide
  rw [underway.emitted, ← List.singleton_append, stored_append, nothing, List.nil_append,
    stored_of_kept underway.kept]

/-- A line that is accepted and has room is stored in silence, and so is the last one. -/
theorem Underway.outbox_of_line (underway : Underway room code s)
    (noBegin : Keyword.ofText? text ≠ some .begin)
    (accepted : (s.machine.compiler.compileLine s.machine.vars s.machine.readings text).fault = none)
    (terse : s.machine.diagnostics ≤ 1)
    (fits : (stored (s.act (.line text)).emitted).length < room) :
    (s.act (.line text)).machine.outbox = s.machine.outbox := by
  obtain ⟨more, kept, emits⟩ :=
    Compiler.emitted_of_accepted underway.inProgram noBegin accepted
  rw [act_line] at fits ⊢
  obtain ⟨compiled, compiles⟩ : ∃ compiled, s.machine.compiler.compileLine s.machine.vars
    s.machine.readings text = compiled := ⟨_, rfl⟩
  rw [compiles] at emits fits ⊢
  have nothing : stored [.endDownload] = [] := by decide
  have prepared := filling_of_compiled underway.filling compiled.compiler compiled.vars
  obtain ⟨filled, alike⟩ := prepared.encode kept console
  rw [receive, stored_append, underway.stored_emitted] at fits
  rcases emits with ⟨-, emitted, -⟩ | ⟨-, emitted, -⟩
  · rw [emitted, stored_of_kept kept] at fits
    rw [receive, emitted]
    exact (prepared.stows (Machine.reachAll_encode kept).1 fits console).outbox
  · -- What the last line adds to the program has room too, and only then is the download ended.
    rw [emitted, stored_append, nothing, stored_of_kept kept, List.append_nil] at fits
    have stowed := prepared.stows (Machine.reachAll_encode kept).1 fits console
    have ended := filled.outbox_of_endDownload fits (alike.diagnostics.trans_le terse) console
    rw [receive, emitted, encode_append, Machine.receiveAll_append]
    exact ended.trans stowed.outbox

/-- The rest of a program that is accepted and has room is entered in silence. The induction is on
the lines before the last one. -/
theorem Underway.outbox_of_entered (underway : Underway room code s)
    (closes : Keyword.ofText? closing = some .finish)
    (inside : ∀ text ∈ body, Keyword.ofText? text ≠ some .begin ∧
      Keyword.ofText? text ≠ some .finish)
    (accepted : (s.compiled (body ++ [closing])).faults = []) (terse : s.machine.diagnostics ≤ 1)
    (fits : (stored (s.emitted ++ (s.compiled (body ++ [closing])).emitted)).length < room) :
    (s.actAll ((body ++ [closing]).map .line)).machine.outbox = s.machine.outbox := by
  induction body generalizing s code with
  | nil =>
    simp only [List.nil_append, compiled, Compiler.compileAll, List.append_nil,
      Option.toList_eq_nil_iff] at accepted fits
    have noBegin : Keyword.ofText? closing ≠ some .begin := by
      rw [closes]
      decide
    exact underway.outbox_of_line noBegin accepted terse fits
  | cons text body ih =>
    have inside' := inside text List.mem_cons_self
    obtain ⟨alike, code', next⟩ := underway.line inside'.1 (underway.goesOn inside')
    simp only [List.cons_append, compiled, Compiler.compileAll, List.append_eq_nil_iff,
      Option.toList_eq_nil_iff] at accepted fits
    rw [← List.append_assoc] at fits
    -- All of the program has room, so what comes up to this line has.
    have room' := fits
    rw [stored_append, List.length_append] at room'
    have first := underway.outbox_of_line inside'.1 accepted.1 terse
      (Nat.lt_of_le_of_lt (Nat.le_add_right _ _) room')
    have later := ih next (fun t member => inside t (List.mem_cons_of_mem text member))
      (by rw [compiled_act_line alike]; exact accepted.2) (alike.diagnostics.trans_le terse)
      (by rw [compiled_act_line alike]; exact fits)
    exact later.trans first

/-- As long as only faults are shown, a program that is accepted and has room is entered in
silence. -/
theorem outbox_of_entered {m : Machine} (idle : m.Idle) (outside : m.compiler.compiling = false)
    (two : 2 ≤ m.limits.statementLength) (reliable : m.store.medium.IsReliable)
    (frames : Frames opening body closing) (terse : m.diagnostics ≤ 1)
    (accepted : (m.compiler.compileAll m.vars m.readings
      (opening :: (body ++ [closing]))).faults = [])
    (fits : (stored (m.compiler.compileAll m.vars m.readings
      (opening :: (body ++ [closing]))).emitted).length < m.store.capacity) :
    (actAll { machine := m } ((opening :: (body ++ [closing])).map .line)).machine.outbox =
      m.outbox := by
  have positive : 0 < m.store.capacity := Nat.zero_lt_of_lt fits
  rw [Compiler.compileAll] at accepted fits
  simp only [List.append_eq_nil_iff, Option.toList_eq_nil_iff] at accepted
  obtain ⟨alike, underway⟩ :=
    underway_of_begin idle outside two positive reliable frames.opens accepted.1
  obtain ⟨vars, compiles⟩ := Compiler.exists_compileLine_of_begin frames.opens accepted.1
  rw [outside] at compiles
  have given := Machine.enter_eq compiles
  have begun : (act { machine := m } (.line opening)).machine.outbox = m.outbox := by
    let renewed := m.renewed m.compiler.countLine.begun vars
    change (m.enter opening).1.outbox = m.outbox
    rw [given]
    exact Machine.outbox_of_beginDownload (m := renewed) { idle with } two terse reliable console
  have accepted' : ((act { machine := m } (.line opening)).compiled (body ++ [closing])).faults =
      [] := by
    rw [compiled_act_line alike]
    exact accepted.2
  have fits' : (stored ((act { machine := m } (.line opening)).emitted ++
      ((act { machine := m } (.line opening)).compiled (body ++ [closing])).emitted)).length <
        m.store.capacity := by
    rw [compiled_act_line alike]
    exact fits
  have later := underway.outbox_of_entered frames.closes frames.inside accepted'
    (alike.diagnostics.trans_le terse) fits'
  exact later.trans begun

end Session

end ControlScript
