/-
Hardware interrupts, nested and across tasks (`interrupts/idt.c`, `drivers/ps2.c`, `drivers/pic.c`).

The gates of the timer and of the keyboard are trap gates, so interrupts stay enabled in their handlers: a handler can be
interrupted between any two statements. The timer's handler also switches tasks, and then a handler of the task that was
interrupted waits until the task runs again. Both handlers end the service with the same command, which does not name a line.
`ps2_handle_irq1` changes the scancode queue without disabling interrupts.

Here each handler is taken statement by statement. Lines are raised at any time, the processor takes a pending interrupt
between any two statements, and a switch goes to any task.

- `inv_step`: what every step keeps. A line is in service exactly while a handler for it has not sent its command; there is at most
  one such handler of the keyboard among all tasks, and the timer's is on top of the running one;
- `eoi_ends_own_service`: so, in every run, the command ends the service of the line whose handler sends it;
- `scancodes_logged`: and the queue is never changed by two handlers at once: it holds the latest ten scancodes in the order in
  which they were read. Until a keyboard handler has sent its command, only the timer is accepted, also while the task of the
  handler does not run.

The lines from 2 on lead to `default_exception_handler`, which panics. The calls of `printk_debug` have no effect here.
-/
import Gubos.Core.Circular
import Gubos.Core.Run
import Gubos.Descriptors
import Gubos.Drivers.Pic

namespace Gubos.Interrupts

open Gubos.Core Gubos.Pic Gubos.Descriptors

/-! ## The machine -/

/-- `timer_irq_handler`: `pic_send_eoi(PIC_IRQ0)`, `sched_context_switch()`, and the return -/
inductive TimerPc where
  | eoi
  | switch
  | ret
deriving DecidableEq, Repr

/-- `ps2_handle_irq1`, called by `keyboard_irq_handler`: `scancode = inb(PS2_DATA)`, `buf[end] = scancode`,
`end = (end + 1) % PS2_SCANCODE_QUEUE_SIZE`, `pic_send_eoi(PIC_IRQ1)`, and the return -/
inductive KeyboardPc where
  | read
  | store (scancode : BitVec 8)
  | advance
  | eoi
  | ret
deriving DecidableEq, Repr

/-- a handler under way, and its next statement -/
inductive Frame where
  | timer (pc : TimerPc)
  | keyboard (pc : KeyboardPc)
deriving DecidableEq, Repr

/-- `PS2_SCANCODE_QUEUE_SIZE` -/
def ps2ScancodeQueueSize : ℕ := 10

/-- the controllers, `scancode_queue_ctx`, `SCHED_INIT`, the running task, the handlers under way in each task, innermost first,
and the scancodes that were read so far -/
structure St where
  pics : Pics
  queue : Circular (BitVec 8)
  schedInit : Bool
  current : ℕ
  frames : ℕ → List Frame
  received : List (BitVec 8)

/-- the lines of the two controllers are raised, the processor takes a pending interrupt, or the running task executes its next
statement: a read of the data port returns `data`, and a switch goes to task `next` -/
inductive Op where
  | raise (irq : ℕ)
  | accept
  | exec (data : BitVec 8) (next : ℕ)
deriving DecidableEq, Repr

/-- a handler that halts the machine -/
structure Halted where
  handler : Option Isr
deriving DecidableEq, Repr

/-- a line of the slave also raises line 2 of the master, if the slave passes the request on -/
def raise (p : Pics) (irq : ℕ) : Pics :=
  if irq < 8 then { p with master := p.master.raise irq }
  else
    let slave := p.slave.raise (irq - 8)
    ⟨if slave.pending.isSome then p.master.raise 2 else p.master, slave⟩

/-- the processor asks the controllers for a vector; the slave gives line 7 if it has no request any more -/
def acknowledge (p : Pics) : Option (ℕ × Pics) :=
  p.master.pending.map fun n =>
    if n = 2 then
      match p.slave.pending with
      | some m => (p.slave.offset + m, ⟨p.master.acknowledge 2, p.slave.acknowledge m⟩)
      | none => (p.slave.offset + 7, { p with master := p.master.acknowledge 2 })
    else (p.master.offset + n, { p with master := p.master.acknowledge n })

/-- the frames of the running task are replaced -/
def St.setTop (s : St) (fs : List Frame) : St := { s with frames := Function.update s.frames s.current fs }

/-- the handler of a vector is entered -/
def enter (s : St) (vector : ℕ) : Except Halted St :=
  match handlerAt vector with
  | some .timerIrq => .ok (s.setTop (.timer .eoi :: s.frames s.current))
  | some .keyboardIrq => .ok (s.setTop (.keyboard .read :: s.frames s.current))
  | handler => .error ⟨handler⟩

def accept (s : St) : Except Halted St :=
  match acknowledge s.pics with
  | none => .ok s
  | some (vector, pics) => enter { s with pics := pics } vector

/-- one statement of `timer_irq_handler`; a task that is switched away from goes on at the return -/
def execTimer (s : St) (next : ℕ) (rest : List Frame) : TimerPc → St
  | .eoi => { s.setTop (.timer .switch :: rest) with pics := picSendEoi s.pics picIrq0 }
  | .switch => { s.setTop (.timer .ret :: rest) with current := if s.schedInit then next else s.current }
  | .ret => s.setTop rest

/-- one statement of `ps2_handle_irq1` -/
def execKeyboard (s : St) (data : BitVec 8) (rest : List Frame) : KeyboardPc → St
  | .read => { s.setTop (.keyboard (.store data) :: rest) with received := s.received ++ [data] }
  | .store scancode =>
    { s.setTop (.keyboard .advance :: rest) with queue := { s.queue with buf := Function.update s.queue.buf s.queue.pos scancode } }
  | .advance =>
    { s.setTop (.keyboard .eoi :: rest) with queue := { s.queue with pos := (s.queue.pos + 1) % ps2ScancodeQueueSize } }
  | .eoi => { s.setTop (.keyboard .ret :: rest) with pics := picSendEoi s.pics picIrq1 }
  | .ret => s.setTop rest

/-- the innermost handler of the running task goes on, or the task itself -/
def exec (s : St) (data : BitVec 8) (next : ℕ) : St :=
  match s.frames s.current with
  | [] => s
  | .timer pc :: rest => execTimer s next rest pc
  | .keyboard pc :: rest => execKeyboard s data rest pc

def step (s : St) : Op → Except Halted St
  | .raise irq => .ok { s with pics := raise s.pics irq }
  | .accept => accept s
  | .exec data next => .ok (exec s data next)

/-- after `init_hardware_interrupts`, with an empty queue and no handler under way -/
structure Start (s : St) : Prop where
  pics : ∃ p, s.pics = initHardwareInterrupts p
  queue : s.queue.pos = 0
  frames : ∀ t, s.frames t = []
  received : s.received = []

/-! ## The invariant -/

/-- a keyboard handler that has not sent its command -/
def Frame.unacked : Frame → Bool
  | .keyboard .ret => false
  | .keyboard _ => true
  | .timer _ => false

/-- the line that a handler's command is for, if it comes next -/
def Frame.eoi : Frame → Option ℕ
  | .timer .eoi => some picIrq0
  | .keyboard .eoi => some picIrq1
  | _ => none

/-- the handlers that have not sent their command, when `o` is the one of the keyboard: task and next statement -/
def unackedOf (o : Option (ℕ × KeyboardPc)) (t : ℕ) : List Frame :=
  match o with
  | some (u, pc) => if t = u then [.keyboard pc] else []
  | none => []

/-- the queue after a list of scancodes -/
def logOf (buf : ℕ → BitVec 8) (l : List (BitVec 8)) : Circular (BitVec 8) := l.foldl (Circular.push ps2ScancodeQueueSize) ⟨0, buf⟩

/-- the queue in the middle of the handler: the last scancode is read, stored, counted -/
def QueueAt (buf : ℕ → BitVec 8) (received : List (BitVec 8)) (queue : Circular (BitVec 8)) : Option KeyboardPc → Prop
  | some (.store scancode) => ∃ r, received = r ++ [scancode] ∧ queue = logOf buf r
  | some .advance => ∃ r scancode, received = r ++ [scancode] ∧
      queue = ⟨(logOf buf r).pos, Function.update (logOf buf r).buf (logOf buf r).pos scancode⟩
  | _ => queue = logOf buf received

/-- the invariant; `o` is the keyboard handler that has not sent its command -/
structure Inv (buf : ℕ → BitVec 8) (s : St) (o : Option (ℕ × KeyboardPc)) : Prop where
  offset : s.pics.master.offset = 0x20
  slaveOffset : s.pics.slave.offset = 0x28
  /-- the timer's command is sent before anything else can happen -/
  timerTop : ∀ t f fs, s.frames t = f :: fs → Frame.timer .eoi ∉ fs ∧ (t ≠ s.current → f ≠ .timer .eoi)
  timer : s.pics.master.isr 0 = true ↔ (s.frames s.current).head? = some (.timer .eoi)
  keyboard : s.pics.master.isr 1 = o.isSome
  others : ∀ n, 2 ≤ n → n < 8 → s.pics.master.isr n = false
  unacked : ∀ t, (s.frames t).filter Frame.unacked = unackedOf o t
  queue : QueueAt buf s.received s.queue (o.map Prod.snd)

section Step

variable {buf : ℕ → BitVec 8} {s s' : St} {o : Option (ℕ × KeyboardPc)} {rest : List Frame} {pc : KeyboardPc}
  {data : BitVec 8} {next : ℕ}

theorem unackedOf_none (t : ℕ) : unackedOf none t = [] := rfl

theorem unackedOf_self (u : ℕ) (pc : KeyboardPc) : unackedOf (some (u, pc)) u = [.keyboard pc] := if_pos rfl

theorem unackedOf_ne {t u : ℕ} (h : t ≠ u) (pc : KeyboardPc) : unackedOf (some (u, pc)) t = [] := if_neg h

theorem unackedOf_length (o : Option (ℕ × KeyboardPc)) (t : ℕ) : (unackedOf o t).length ≤ 1 := by
  cases o with
  | none => exact Nat.zero_le _
  | some p =>
    obtain ⟨u, pc⟩ := p
    by_cases ht : t = u
    · rw [ht, unackedOf_self]
      exact le_rfl
    · rw [unackedOf_ne ht]
      exact Nat.zero_le _

/-- a handler of the keyboard that has not sent its command is the only one -/
theorem Inv.owner (hi : Inv buf s o) (hframes : s.frames s.current = .keyboard pc :: rest) (hpc : pc ≠ .ret) :
    o = some (s.current, pc) ∧ rest.filter Frame.unacked = [] := by
  have hun : Frame.unacked (.keyboard pc) = true := by
    cases pc with
    | ret => exact absurd rfl hpc
    | read | store | advance | eoi => rfl
  have hfilter := hi.unacked s.current
  rw [hframes, List.filter_cons_of_pos hun] at hfilter
  cases o with
  | none => cases hfilter
  | some p =>
    obtain ⟨u, q⟩ := p
    by_cases hu : s.current = u
    · subst hu
      rw [unackedOf_self] at hfilter
      obtain ⟨h1, h2⟩ := List.cons.inj hfilter
      cases h1
      exact ⟨rfl, h2⟩
    · rw [unackedOf_ne hu] at hfilter
      cases hfilter

/-- the frames of the running task are replaced: the parts of the invariant about frames -/
theorem Inv.retop (hi : Inv buf s o) (fs : List Frame) (o' : Option (ℕ × KeyboardPc)) (htail : ∀ f rest, fs = f :: rest → Frame.timer .eoi ∉ rest)
    (hfilter : fs.filter Frame.unacked = unackedOf o' s.current) (hother : ∀ t, t ≠ s.current → unackedOf o' t = unackedOf o t) :
    (∀ t f rest, Function.update s.frames s.current fs t = f :: rest →
      Frame.timer .eoi ∉ rest ∧ (t ≠ s.current → f ≠ .timer .eoi)) ∧
    ∀ t, (Function.update s.frames s.current fs t).filter Frame.unacked = unackedOf o' t := by
  refine ⟨fun t f rest hf => ?_, fun t => ?_⟩
  · by_cases ht : t = s.current
    · subst ht
      rw [Function.update_self] at hf
      exact ⟨htail f rest hf, fun hne => absurd rfl hne⟩
    · rw [Function.update_of_ne ht] at hf
      exact hi.timerTop t f rest hf
  · by_cases ht : t = s.current
    · subst ht
      rw [Function.update_self]
      exact hfilter
    · rw [Function.update_of_ne ht, hi.unacked t]
      exact (hother t ht).symm

/-- the frames of a task that has not taken a timer interrupt just now -/
theorem Inv.no_timer (hi : Inv buf s o) (h0 : s.pics.master.isr 0 = false) : Frame.timer .eoi ∉ s.frames s.current := by
  intro hmem
  cases hframes : s.frames s.current with
  | nil =>
    rw [hframes] at hmem
    cases hmem
  | cons f rest =>
    rw [hframes] at hmem
    rcases List.mem_cons.1 hmem with hf | hr
    · have htop : s.pics.master.isr 0 = true := hi.timer.2 (by rw [hframes, ← hf]; rfl)
      rw [h0] at htop
      cases htop
    · exact (hi.timerTop _ f rest hframes).1 hr

theorem sendEoi_master (p : Pics) {irq : ℕ} (hirq : irq < 8) :
    picSendEoi p irq = { p with master := p.master.endOfInterrupt } := by
  unfold picSendEoi
  rw [if_neg (not_le.2 hirq)]
  rfl

/-! ## One step -/

theorem raise_master (p : Pics) (irq : ℕ) :
    (raise p irq).master.isr = p.master.isr ∧ (raise p irq).master.offset = p.master.offset ∧
      (raise p irq).slave.offset = p.slave.offset := by
  unfold raise
  split_ifs with h
  · exact ⟨rfl, rfl, rfl⟩
  · refine ⟨?_, ?_, rfl⟩ <;> dsimp only <;> split_ifs <;> rfl

theorem inv_raise (hi : Inv buf s o) (irq : ℕ) : Inv buf { s with pics := raise s.pics irq } o := by
  obtain ⟨hisr, hoff, hslave⟩ := raise_master s.pics irq
  refine ⟨hoff.trans hi.offset, hslave.trans hi.slaveOffset, hi.timerTop, ?_, ?_, ?_, hi.unacked, hi.queue⟩
  · rw [hisr]
    exact hi.timer
  · rw [hisr]
    exact hi.keyboard
  · rw [hisr]
    exact hi.others

/-- the timer's interrupt is taken -/
theorem inv_enter_timer (hi : Inv buf s o) (h0 : s.pics.master.isr 0 = false) :
    Inv buf { s with
      pics := { s.pics with master := s.pics.master.acknowledge 0 }
      frames := Function.update s.frames s.current (.timer .eoi :: s.frames s.current) } o := by
  have hnot := hi.no_timer h0
  obtain ⟨htop, hunacked⟩ := hi.retop (.timer .eoi :: s.frames s.current) o
    (fun f rest hf => by cases hf; exact hnot) (by rw [List.filter_cons_of_neg (by decide), hi.unacked]) (fun t _ => rfl)
  refine ⟨hi.offset, hi.slaveOffset, htop, ?_, ?_, ?_, hunacked, hi.queue⟩
  · simp [Controller.acknowledge]
  · simpa [Controller.acknowledge] using hi.keyboard
  · intro n h2 h8
    have hn := hi.others n h2 h8
    simpa [Controller.acknowledge, Function.update_of_ne (show n ≠ 0 by omega)] using hn

/-- the keyboard's interrupt is taken -/
theorem inv_enter_keyboard (hi : Inv buf s o) (h0 : s.pics.master.isr 0 = false) (h1 : s.pics.master.isr 1 = false) :
    Inv buf { s with
      pics := { s.pics with master := s.pics.master.acknowledge 1 }
      frames := Function.update s.frames s.current (.keyboard .read :: s.frames s.current) } (some (s.current, .read)) := by
  have hnot := hi.no_timer h0
  have ho : o = none := by
    have hkey := hi.keyboard
    rw [h1] at hkey
    exact Option.isSome_eq_false_iff.1 hkey.symm |> Option.isNone_iff_eq_none.1
  subst ho
  obtain ⟨htop, hunacked⟩ := hi.retop (.keyboard .read :: s.frames s.current) (some (s.current, .read))
    (fun f rest hf => by cases hf; exact hnot)
    (by rw [List.filter_cons_of_pos (by decide), hi.unacked, unackedOf_self, unackedOf_none])
    (fun t ht => by rw [unackedOf_ne ht, unackedOf_none])
  refine ⟨hi.offset, hi.slaveOffset, htop, ?_, ?_, ?_, hunacked, hi.queue⟩
  · simp [Controller.acknowledge, h0]
  · simp [Controller.acknowledge]
  · intro n h2 h8
    have hn := hi.others n h2 h8
    simpa [Controller.acknowledge, Function.update_of_ne (show n ≠ 1 by omega)] using hn

/-- the vectors of the other lines lead to a handler that panics -/
theorem enter_default {vector : ℕ} (h1 : 34 ≤ vector) (h2 : vector < 80) (s : St) : enter s vector = .error ⟨some .default⟩ := by
  have hhandler : handlerAt vector = some .default := by
    unfold handlerAt
    rw [if_neg (by omega), if_neg (by omega), if_neg (by omega), if_neg (by omega)]
  unfold enter
  rw [hhandler]

/-- what an interrupt that is taken can be -/
theorem accept_cases (hi : Inv buf s o) (hok : accept s = .ok s') :
    s' = s ∨
    (s.pics.master.isr 0 = false ∧ s' = { s with
      pics := { s.pics with master := s.pics.master.acknowledge 0 }
      frames := Function.update s.frames s.current (.timer .eoi :: s.frames s.current) }) ∨
    (s.pics.master.isr 0 = false ∧ s.pics.master.isr 1 = false ∧ s' = { s with
      pics := { s.pics with master := s.pics.master.acknowledge 1 }
      frames := Function.update s.frames s.current (.keyboard .read :: s.frames s.current) }) := by
  unfold accept acknowledge at hok
  cases hpending : s.pics.master.pending with
  | none =>
    rw [hpending] at hok
    exact Or.inl (Except.ok.inj hok).symm
  | some n =>
    obtain ⟨hn, _, hfree⟩ := pending_free hpending
    rw [hpending, Option.map_some] at hok
    by_cases h2 : n = 2
    · -- the slave's vectors
      rw [if_pos h2] at hok
      cases hslave : s.pics.slave.pending with
      | none =>
        simp only [hslave, hi.slaveOffset] at hok
        rw [enter_default (by decide) (by decide)] at hok
        cases hok
      | some m =>
        have hm := (pending_free hslave).1
        simp only [hslave, hi.slaveOffset] at hok
        rw [enter_default (by omega) (by omega)] at hok
        cases hok
    · rw [if_neg h2] at hok
      simp only [hi.offset] at hok
      by_cases h3 : 3 ≤ n
      · rw [enter_default (by omega) (by omega)] at hok
        cases hok
      · obtain rfl | rfl : n = 0 ∨ n = 1 := by omega
        · exact Or.inr (Or.inl ⟨hfree 0 le_rfl, (Except.ok.inj hok).symm⟩)
        · exact Or.inr (Or.inr ⟨hfree 0 (by decide), hfree 1 le_rfl, (Except.ok.inj hok).symm⟩)

/-! ### The statements of the handlers -/

/-- the timer is not in service in a task whose innermost handler has nothing to do for it -/
theorem Inv.timer_free (hi : Inv buf s o) {f : Frame} (hframes : s.frames s.current = f :: rest) (hf : f ≠ .timer .eoi) :
    s.pics.master.isr 0 = false := by
  rw [Bool.eq_false_iff]
  intro htrue
  have htop := hi.timer.1 htrue
  rw [hframes] at htop
  exact hf (Option.some.inj htop)

/-- the frames of the running task after a statement that leaves no timer to acknowledge, when the lines in service are `isr` -/
theorem Inv.replace (hi : Inv buf s o) {fs : List Frame} {o' : Option (ℕ × KeyboardPc)} {received : List (BitVec 8)}
    {queue : Circular (BitVec 8)} {isr : ℕ → Bool} (hfs : Frame.timer .eoi ∉ fs)
    (hfilter : fs.filter Frame.unacked = unackedOf o' s.current) (hother : ∀ t, t ≠ s.current → unackedOf o' t = unackedOf o t)
    (h0 : isr 0 = false) (h1 : isr 1 = o'.isSome) (h2 : ∀ n, 2 ≤ n → n < 8 → isr n = false)
    (hqueue : QueueAt buf received queue (o'.map Prod.snd)) :
    Inv buf { s.setTop fs with
      pics := { s.pics with master := { s.pics.master with isr := isr } }
      received := received
      queue := queue } o' := by
  obtain ⟨htop, hunacked⟩ := hi.retop fs o' (fun g rest hg hmem => hfs (hg ▸ List.mem_cons_of_mem _ hmem)) hfilter hother
  refine ⟨hi.offset, hi.slaveOffset, htop, ?_, h1, h2, hunacked, hqueue⟩
  change isr 0 = true ↔ (Function.update s.frames s.current fs s.current).head? = _
  rw [h0, Function.update_self]
  constructor
  · intro h
    cases h
  · intro h
    exact absurd (List.mem_of_mem_head? h) hfs

/-- the timer's command: its line is the first in service -/
theorem inv_timer_eoi (hi : Inv buf s o) (hframes : s.frames s.current = .timer .eoi :: rest) :
    s.pics.master.isr 0 = true ∧
      (picSendEoi s.pics picIrq0).master = { s.pics.master with isr := Function.update s.pics.master.isr 0 false } ∧
      Inv buf (execTimer s next rest .eoi) o := by
  have h0 : s.pics.master.isr 0 = true := hi.timer.2 (by rw [hframes]; rfl)
  have hsend : picSendEoi s.pics picIrq0 =
      { s.pics with master := { s.pics.master with isr := Function.update s.pics.master.isr 0 false } } := by
    rw [sendEoi_master _ (by decide), endOfInterrupt_first (by decide) h0 (fun m hm => absurd hm (Nat.not_lt_zero m))]
  refine ⟨h0, by rw [hsend], ?_⟩
  have hrest := (hi.timerTop _ _ _ hframes).1
  have hfilter := hi.unacked s.current
  rw [hframes, List.filter_cons_of_neg (by decide)] at hfilter
  have hinv := @Inv.replace _ _ _ hi (.timer .switch :: rest) o s.received s.queue (Function.update s.pics.master.isr 0 false)
    (by simp [hrest]) (by rw [List.filter_cons_of_neg (by decide), hfilter]) (fun t _ => rfl) (Function.update_self ..)
    (by rw [Function.update_of_ne (by decide), hi.keyboard])
    (fun n h2 h8 => by rw [Function.update_of_ne (by omega), hi.others n h2 h8]) hi.queue
  rw [← hsend] at hinv
  exact hinv

/-- the switch: no task waits with a timer to acknowledge -/
theorem inv_timer_switch (hi : Inv buf s o) (hframes : s.frames s.current = .timer .switch :: rest) :
    Inv buf (execTimer s next rest .switch) o := by
  have h0 := hi.timer_free hframes (by decide)
  have hrest := (hi.timerTop _ _ _ hframes).1
  have hfilter := hi.unacked s.current
  rw [hframes, List.filter_cons_of_neg (by decide)] at hfilter
  obtain ⟨htop, hunacked⟩ := hi.retop (.timer .ret :: rest) o (fun g rest' hg => by cases hg; exact hrest)
    (by rw [List.filter_cons_of_neg (by decide), hfilter]) (fun t _ => rfl)
  have hnone : ∀ t f fs, Function.update s.frames s.current (.timer .ret :: rest) t = f :: fs → f ≠ .timer .eoi := by
    intro t f fs hf
    by_cases ht : t = s.current
    · subst ht
      rw [Function.update_self] at hf
      cases hf
      decide
    · exact (htop t f fs hf).2 ht
  refine ⟨hi.offset, hi.slaveOffset, fun t f fs hf => ⟨(htop t f fs hf).1, fun _ => hnone t f fs hf⟩, ?_, hi.keyboard, hi.others,
    hunacked, hi.queue⟩
  change s.pics.master.isr 0 = true ↔ _
  rw [h0]
  constructor
  · intro h
    cases h
  · intro h
    obtain ⟨fs, hfs⟩ := List.head?_eq_some_iff.1 h
    exact absurd rfl (hnone _ _ fs hfs)

/-- a handler that has sent its command returns -/
theorem inv_return (hi : Inv buf s o) {f : Frame} (hframes : s.frames s.current = f :: rest) (hf : f ≠ .timer .eoi)
    (hun : f.unacked = false) : Inv buf (s.setTop rest) o := by
  have hrest := (hi.timerTop _ _ _ hframes).1
  have hfilter := hi.unacked s.current
  rw [hframes, List.filter_cons_of_neg (by simp [hun])] at hfilter
  exact hi.replace hrest hfilter (fun t _ => rfl) (hi.timer_free hframes hf) hi.keyboard hi.others hi.queue

/-- a statement of a keyboard handler before its command -/
theorem inv_keyboard_next (hi : Inv buf s o) (hframes : s.frames s.current = .keyboard pc :: rest) {pc' : KeyboardPc}
    (hpc : pc ≠ .ret) (hpc' : pc' ≠ .ret) {received : List (BitVec 8)} {queue : Circular (BitVec 8)}
    (hqueue : QueueAt buf s.received s.queue (some pc) → QueueAt buf received queue (some pc')) :
    Inv buf { s.setTop (.keyboard pc' :: rest) with received := received, queue := queue } (some (s.current, pc')) := by
  obtain ⟨rfl, hfilter⟩ := hi.owner hframes hpc
  have hrest := (hi.timerTop _ _ _ hframes).1
  have hun : Frame.unacked (.keyboard pc') = true := by
    cases pc' with
    | ret => exact absurd rfl hpc'
    | read | store | advance | eoi => rfl
  exact hi.replace (by simp [hrest]) (by rw [List.filter_cons_of_pos hun, hfilter, unackedOf_self])
    (fun t ht => by rw [unackedOf_ne ht, unackedOf_ne ht]) (hi.timer_free hframes (by simp)) hi.keyboard hi.others
    (hqueue hi.queue)

/-- the keyboard's command: the timer is not in service then -/
theorem inv_keyboard_eoi (hi : Inv buf s o) (hframes : s.frames s.current = .keyboard .eoi :: rest) :
    s.pics.master.isr 1 = true ∧
      (picSendEoi s.pics picIrq1).master = { s.pics.master with isr := Function.update s.pics.master.isr 1 false } ∧
      Inv buf (execKeyboard s data rest .eoi) none := by
  obtain ⟨rfl, hfilter⟩ := hi.owner hframes (by decide)
  have hrest := (hi.timerTop _ _ _ hframes).1
  have h0 := hi.timer_free hframes (by decide)
  have h1 : s.pics.master.isr 1 = true := hi.keyboard
  have hsend : picSendEoi s.pics picIrq1 =
      { s.pics with master := { s.pics.master with isr := Function.update s.pics.master.isr 1 false } } := by
    rw [sendEoi_master _ (by decide), endOfInterrupt_first (by decide) h1 (fun m hm => by rw [Nat.lt_one_iff.1 hm, h0])]
  refine ⟨h1, by rw [hsend], ?_⟩
  have hinv := @Inv.replace _ _ _ hi (.keyboard .ret :: rest) none s.received s.queue (Function.update s.pics.master.isr 1 false)
    (by simp [hrest]) (by rw [List.filter_cons_of_neg (by decide), hfilter, unackedOf_none])
    (fun t ht => by rw [unackedOf_ne ht, unackedOf_none]) (by rw [Function.update_of_ne (by decide), h0]) (Function.update_self ..)
    (fun n h2 h8 => by rw [Function.update_of_ne (by omega), hi.others n h2 h8]) hi.queue
  rw [← hsend] at hinv
  exact hinv

theorem logOf_append (l : List (BitVec 8)) (scancode : BitVec 8) :
    logOf buf (l ++ [scancode]) = (logOf buf l).push ps2ScancodeQueueSize scancode := by
  unfold logOf
  rw [List.foldl_append]
  rfl

theorem inv_exec (hi : Inv buf s o) : ∃ o', Inv buf (exec s data next) o' := by
  unfold exec
  cases hframes : s.frames s.current with
  | nil => exact ⟨o, hi⟩
  | cons f rest =>
    cases f with
    | timer pc =>
      cases pc with
      | eoi => exact ⟨o, (inv_timer_eoi hi hframes).2.2⟩
      | switch => exact ⟨o, inv_timer_switch hi hframes⟩
      | ret => exact ⟨o, inv_return hi hframes (by decide) rfl⟩
    | keyboard pc =>
      cases pc with
      | read =>
        refine ⟨_, inv_keyboard_next hi hframes (by decide) (by simp) fun hqueue => ?_⟩
        exact ⟨s.received, rfl, hqueue⟩
      | store scancode =>
        refine ⟨_, inv_keyboard_next hi hframes (by simp) (by decide) fun hqueue => ?_⟩
        obtain ⟨r, hr, hqueue⟩ := hqueue
        exact ⟨r, scancode, hr, by rw [hqueue]⟩
      | advance =>
        refine ⟨_, inv_keyboard_next hi hframes (by decide) (by decide) fun hqueue => ?_⟩
        obtain ⟨r, scancode, hr, hqueue⟩ := hqueue
        change _ = logOf buf s.received
        rw [hr, logOf_append, hqueue]
        rfl
      | eoi => exact ⟨none, (inv_keyboard_eoi hi hframes).2.2⟩
      | ret => exact ⟨o, inv_return hi hframes (by decide) rfl⟩

/-- **One step**, whatever the lines, the processor and the running task do. -/
theorem inv_step {op : Op} (hi : Inv buf s o) (hok : step s op = .ok s') : ∃ o', Inv buf s' o' := by
  cases op with
  | raise irq =>
    cases hok
    exact ⟨o, inv_raise hi irq⟩
  | accept =>
    obtain rfl | ⟨h0, rfl⟩ | ⟨h0, h1, rfl⟩ := accept_cases hi hok
    · exact ⟨o, hi⟩
    · exact ⟨o, inv_enter_timer hi h0⟩
    · exact ⟨_, inv_enter_keyboard hi h0 h1⟩
  | exec data next =>
    cases hok
    exact inv_exec hi

theorem inv_start (hs : Start s) : Inv s.queue.buf s none := by
  obtain ⟨p, hp⟩ := hs.pics
  obtain ⟨imr, himr, _⟩ := hardwareInterrupts_eq p
  rw [himr] at hp
  refine ⟨by rw [hp]; rfl, by rw [hp]; rfl, fun t f fs hf => ?_, ?_, by rw [hp]; rfl, fun n _ _ => by rw [hp]; rfl,
    fun t => by rw [hs.frames]; rfl, ?_⟩
  · rw [hs.frames] at hf
    cases hf
  · rw [hp, hs.frames]
    simp [programmed]
  · change s.queue = logOf s.queue.buf s.received
    rw [hs.received]
    cases hqueue : s.queue with
    | mk pos buf =>
      have hpos := hs.queue
      rw [hqueue] at hpos
      cases hpos
      rfl

/-- every state of a run -/
theorem inv_run {s₀ : St} {ops : List Op} (hs : Start s₀) (hr : Runs step (fun _ _ => True) s₀ ops s) :
    ∃ o, Inv s₀.queue.buf s o := by
  apply hr.inv (P := fun s => ∃ o, Inv s₀.queue.buf s o)
  · rintro s op t ⟨o, hi⟩ _ hok
    exact inv_step hi hok
  · exact ⟨none, inv_start hs⟩

/-- the task and the statement of a keyboard handler that has not sent its command -/
theorem Inv.owner_of_mem (hi : Inv buf s o) {t : ℕ} {f : Frame} (hmem : f ∈ s.frames t) (hf : f.unacked = true) :
    ∃ pc, o = some (t, pc) ∧ f = .keyboard pc := by
  have hfilter : f ∈ unackedOf o t := by
    rw [← hi.unacked t]
    exact List.mem_filter.2 ⟨hmem, hf⟩
  cases o with
  | none => cases hfilter
  | some p =>
    obtain ⟨u, pc⟩ := p
    by_cases ht : t = u
    · subst ht
      rw [unackedOf_self] at hfilter
      exact ⟨pc, rfl, List.mem_singleton.1 hfilter⟩
    · rw [unackedOf_ne ht] at hfilter
      cases hfilter

end Step

/-! ## Every run -/

section Runs

variable {s₀ s : St} {ops : List Op}

/-- **The end of interrupt goes to the right line.** The command does not name a line, and handlers nest and wait in tasks that do
not run. Still, whenever a handler is about to send it, its own line is in service, and the command ends the service of this line
and of no other. -/
theorem eoi_ends_own_service {f : Frame} {rest : List Frame} {n : ℕ} (hs : Start s₀) (hr : Runs step (fun _ _ => True) s₀ ops s)
    (hframes : s.frames s.current = f :: rest) (hf : f.eoi = some n) (data : BitVec 8) (next : ℕ) :
    s.pics.master.isr n = true ∧
      (exec s data next).pics.master = { s.pics.master with isr := Function.update s.pics.master.isr n false } := by
  obtain ⟨o, hi⟩ := inv_run hs hr
  unfold exec
  rw [hframes]
  cases f with
  | timer pc =>
    cases pc with
    | eoi =>
      cases hf
      obtain ⟨hisr, hmaster, _⟩ := @inv_timer_eoi _ _ _ _ next hi hframes
      exact ⟨hisr, hmaster⟩
    | switch | ret => cases hf
  | keyboard pc =>
    cases pc with
    | eoi =>
      cases hf
      obtain ⟨hisr, hmaster, _⟩ := @inv_keyboard_eoi _ _ _ _ data hi hframes
      exact ⟨hisr, hmaster⟩
    | read | store | advance | ret => cases hf

/-- a machine after `init_hardware_interrupts`, with every line masked before -/
def booted : St where
  pics := initHardwareInterrupts ⟨programmed 0xff 0x20 4, programmed 0xff 0x28 2⟩
  queue := ⟨0, fun _ => 0⟩
  schedInit := true
  current := 0
  frames := fun _ => []
  received := []

theorem start_booted : Start booted := ⟨⟨_, rfl⟩, rfl, fun _ => rfl, rfl⟩

/-- the keyboard's handler has read a scancode when the timer switches to task 1; another key is pressed there, and the timer
ticks again -/
def interrupted : List Op :=
  [.raise 1, .accept, .exec 0x1c 0, .raise 0, .accept, .exec 0 0, .exec 0 1, .raise 1, .accept, .raise 0, .accept]

def switchedAway : St := returned booted (Runs.exec step booted interrupted)

theorem runs_interrupted : Runs step (fun _ _ => True) booted interrupted switchedAway := .of_exec (by decide) rfl

/-- both lines are in service, and the handler of the keyboard waits in task 0: the command of the timer leaves the keyboard's line
in service -/
theorem eoi_ends_own_service_nested :
    switchedAway.frames 0 = [.timer .ret, .keyboard (.store 0x1c)] ∧ switchedAway.pics.master.isr 1 = true ∧
      switchedAway.pics.master.isr 0 = true ∧ (exec switchedAway 0 0).pics.master.isr 0 = false ∧
      (exec switchedAway 0 0).pics.master.isr 1 = true := by
  have h := @eoi_ends_own_service booted switchedAway interrupted (.timer .eoi) [] 0 start_booted runs_interrupted rfl rfl 0 0
  obtain ⟨hisr, hmaster⟩ := h
  refine ⟨rfl, rfl, hisr, ?_, ?_⟩
  · rw [hmaster]
    rfl
  · rw [hmaster]
    rfl

/-- **The scancode queue under nested interrupts.** In every state of every run: among the handlers of all tasks at most one has a
keyboard interrupt to acknowledge; while there is one, an interrupt that is accepted is the timer's; and while there is none, the
queue holds the latest ten scancodes that were read, in their order, whatever the handlers were interrupted by. -/
theorem scancodes_logged (hs : Start s₀) (hr : Runs step (fun _ _ => True) s₀ ops s) :
    (∀ t u f g, f ∈ s.frames t → g ∈ s.frames u → f.unacked = true → g.unacked = true → t = u ∧ f = g) ∧
    (∀ t, ((s.frames t).filter Frame.unacked).length ≤ 1) ∧
    (∀ t f s', f ∈ s.frames t → f.unacked = true → accept s = .ok s' →
      s' = s ∨ s'.frames = Function.update s.frames s.current (.timer .eoi :: s.frames s.current)) ∧
    ((∀ t, ∀ f ∈ s.frames t, f.unacked = false) →
      s.queue.pos = s.received.length % ps2ScancodeQueueSize ∧
      ∀ j scancode, s.received[j]? = some scancode → s.received.length ≤ j + ps2ScancodeQueueSize →
        s.queue.buf (j % ps2ScancodeQueueSize) = scancode) := by
  obtain ⟨o, hi⟩ := inv_run hs hr
  refine ⟨?_, ?_, ?_, ?_⟩
  · intro t u f g hft hgu hf hg
    obtain ⟨pc, ho, hpc⟩ := hi.owner_of_mem hft hf
    obtain ⟨pc', ho', hpc'⟩ := hi.owner_of_mem hgu hg
    rw [ho] at ho'
    cases ho'
    exact ⟨rfl, hpc.trans hpc'.symm⟩
  · intro t
    rw [hi.unacked]
    exact unackedOf_length o t
  · intro t f s' hft hf hok
    obtain ⟨pc, rfl, _⟩ := hi.owner_of_mem hft hf
    obtain rfl | ⟨_, rfl⟩ | ⟨_, h1, _⟩ := accept_cases hi hok
    · exact Or.inl rfl
    · exact Or.inr rfl
    · have hkey := hi.keyboard
      rw [h1] at hkey
      cases hkey
  · intro hnone
    have ho : o = none := by
      cases o with
      | none => rfl
      | some p =>
        obtain ⟨u, pc⟩ := p
        have hmem : Frame.keyboard pc ∈ (s.frames u).filter Frame.unacked := by
          rw [hi.unacked, unackedOf_self]
          exact List.mem_singleton_self _
        obtain ⟨hmem, hun⟩ := List.mem_filter.1 hmem
        rw [hnone u _ hmem] at hun
        cases hun
    subst ho
    have hqueue : s.queue = logOf s₀.queue.buf s.received := hi.queue
    rw [hqueue]
    exact Circular.foldl_push s₀.queue.buf s.received

/-- the timer's handler in task 1 switches back, the handler of the keyboard ends, and the key pressed meanwhile is handled -/
def resumed : List Op :=
  [.exec 0 0, .exec 0 0, .exec 0 0, .exec 0 0, .exec 0 0, .exec 0 0, .accept, .exec 0x32 0, .exec 0 0, .exec 0 0, .exec 0 0]

def bothKeys : St := returned booted (Runs.exec step booted (interrupted ++ resumed))

/-- the key is not accepted in task 1, and both keys are in the queue, in the order in which they were pressed -/
theorem scancodes_logged_two :
    (∀ s', accept switchedAway = .ok s' → s' = switchedAway) ∧ bothKeys.received = [0x1c, 0x32] ∧
      bothKeys.queue.pos = 2 ∧ bothKeys.queue.buf 0 = 0x1c ∧ bothKeys.queue.buf 1 = 0x32 := by
  have hr : Runs step (fun _ _ => True) booted (interrupted ++ resumed) bothKeys := .of_exec (by decide) rfl
  obtain ⟨_, _, haccept, _⟩ := scancodes_logged start_booted runs_interrupted
  obtain ⟨_, _, _, hlogged⟩ := scancodes_logged start_booted hr
  have hnone : ∀ t, ∀ f ∈ bothKeys.frames t, f.unacked = false := by
    intro t f hf
    match t with
    | 0 => exact (by decide : ∀ f ∈ bothKeys.frames 0, f.unacked = false) f hf
    | 1 => exact (by decide : ∀ f ∈ bothKeys.frames 1, f.unacked = false) f hf
    | t + 2 => cases hf
  obtain ⟨hpos, hbuf⟩ := hlogged hnone
  refine ⟨fun s' hok => ?_, rfl, hpos, hbuf 0 0x1c rfl (by decide), hbuf 1 0x32 rfl (by decide)⟩
  obtain hs' | hs' := haccept 0 (.keyboard (.store 0x1c)) s' (by decide) rfl hok
  · exact hs'
  · have htop : s'.frames 1 = switchedAway.frames 1 := by
      cases hok
      rfl
    rw [hs'] at htop
    cases htop

end Runs

end Gubos.Interrupts
