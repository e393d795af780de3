import FlintInit.Library.Interleaving
import FlintInit.ReplySenders

/-!
# The control protocol

`ctl_server::serve` accepts connections for ever, and each is handled by a
thread of its own: it checks the peer, reads one line, looks at the shared
table or passes a command on to the executor, waits for the answer and writes
one response.  The executor takes the commands from its channel in between its
own steps, and drops the channel with all its senders when it returns.

`Server` puts the executor, the channel and the connections side by side, each
taking its own steps in any order.  A connection's number is also the sender
that its command is answered on.
-/

namespace FlintInit.Ctl

open Collections Runs

/-- Commands sent from flint-ctl to flint-init. -/
inductive Request where
  | status
  | stop (service : String)
  | start (service : String)
  | restart (service : String)
  | reload (service : String)
  deriving DecidableEq

/-- Responses sent from flint-init back to flint-ctl. -/
inductive Response where
  | status (services : List ServiceInfo)
  | ok
  | error (text : String)
  deriving DecidableEq

/-- The command that a request is passed on as. -/
def Request.command (reply : ReplySender) : Request → Option CtlCommand
  | .status => none
  | .stop _ => none
  | .start service => some (.start service reply)
  | .restart service => some (.restart service reply)
  | .reload service => some (.reload service reply)

/-- What the client is told of the executor's answer. -/
def Response.ofAnswer : Except ReplyError Unit → Response
  | .ok () => .ok
  | .error e => .error e.text

def Response.denied : Response :=
  .error "permission denied: root access required"

def Response.disconnected : Response := .error "executor disconnected"

/-- How far `handle_connection` has come. -/
inductive Stage where
  | accepted
  | reading
  | found (service : String) (pid : Pid)
  | waiting
  | answered (response : Response)
  /-- Closed without a response. -/
  | closed
  deriving DecidableEq

/-- A connection: the peer's effective user, if it can be told, and the
request read from it. -/
structure Connection where
  uid : Option Nat
  request : Option Request
  stage : Stage
  deriving DecidableEq

/-- What a connection's thread finds in one step: whether the stream can be
cloned, the first line, and the order in which the shared table happens to be
enumerated. -/
structure Io where
  clone : Bool
  line : Option (Except String String)
  order : IterOrder String

/-- The executor, the channel of commands, the connections, and a record of
the commands sent, the commands taken and the signals sent for a stop. -/
structure Server where
  executor : State
  ended : Bool
  queue : List CtlCommand
  conns : ReplySender → Option Connection
  sent : List CtlCommand
  taken : List CtlCommand
  signals : List (String × Pid × Signal)

/-- What a step of a connection's thread comes to: the connection, a command
put into the channel, and signals sent. -/
structure Effect where
  conn : Connection
  command : Option CtlCommand
  signals : List (String × Pid × Signal)

namespace Connection

def goTo (conn : Connection) (stage : Stage) : Effect :=
  ⟨{ conn with stage := stage }, none, []⟩

/-- `writer.write_all`, after which the connection is closed. -/
def respond (conn : Connection) (response : Response) : Effect :=
  conn.goTo (.answered response)

end Connection

namespace Server

/-- The values of the shared table. -/
def services (srv : Server) (io : Io) : List ServiceInfo :=
  (io.order.arrange srv.executor.shared.keys).filterMap
    srv.executor.shared.lookup

/-- `cmd_tx.send`, which fails once the executor has dropped its end. -/
def sendCommand (srv : Server) (conn : Connection) (command : CtlCommand) :
    Effect :=
  if srv.ended then conn.respond .disconnected
  else ⟨{ conn with stage := .waiting }, some command, []⟩

def handleRequest (srv : Server) (io : Io) (i : ReplySender)
    (conn : Connection) : Request → Effect
  | .status => conn.respond (.status (srv.services io))
  | .stop service =>
      match (srv.executor.shared.lookup service).bind (·.pid) with
      | some pid => conn.goTo (.found service pid)
      | none => conn.respond (.error ("service '" ++ service ++
          "' not found or not running"))
  | .start service => srv.sendCommand conn (.start service i)
  | .restart service => srv.sendCommand conn (.restart service i)
  | .reload service => srv.sendCommand conn (.reload service i)

/-- The answer that has been sent on a sender. -/
def answerFor (srv : Server) (i : ReplySender) :
    Option (Except ReplyError Unit) :=
  (srv.executor.replies.find? fun p => p.1 = i).map Prod.snd

/-- The sender is still held somewhere: its command is in the channel, or it
is parked for a restart. -/
def Holds (srv : Server) (i : ReplySender) : Prop :=
  srv.ended = false ∧ (i ∈ srv.queue.map CtlCommand.reply ∨
    i ∈ values srv.executor.restartReplies)

instance (srv : Server) (i : ReplySender) : Decidable (srv.Holds i) :=
  inferInstanceAs (Decidable (_ ∧ _))

/-- `rx.recv`: wait for the answer, or until no sender is left. -/
def awaitAnswer (srv : Server) (i : ReplySender) (conn : Connection) :
    Effect :=
  match srv.answerFor i with
  | some answer => conn.respond (.ofAnswer answer)
  | none =>
      if srv.Holds i then ⟨conn, none, []⟩ else conn.respond .disconnected

/-- The next step of `handle_connection`. -/
def handleConnection (fromStr : String → Except String Request)
    (srv : Server) (i : ReplySender) (io : Io) (conn : Connection) : Effect :=
  match conn.stage with
  | .accepted =>
      if conn.uid = some 0 then
        conn.goTo (if io.clone then .reading else .closed)
      else if io.clone then conn.respond .denied
      else conn.goTo .closed
  | .reading =>
      match io.line with
      | none => conn.goTo .closed
      | some (.error _) => conn.goTo .closed
      | some (.ok line) =>
          match fromStr line with
          | .error e => conn.respond (.error ("invalid request: " ++ e))
          | .ok request =>
              srv.handleRequest io i { conn with request := some request }
                request
  | .found service pid =>
      ⟨{ conn with stage := .answered .ok }, none, [(service, pid, .sigterm)]⟩
  | .waiting => srv.awaitAnswer i conn
  | .answered _ => ⟨conn, none, []⟩
  | .closed => ⟨conn, none, []⟩

def serve (srv : Server) (i : ReplySender) (effect : Effect) : Server :=
  { srv with
    conns := Function.update srv.conns i (some effect.conn)
    queue := srv.queue ++ effect.command.toList
    sent := srv.sent ++ effect.command.toList
    signals := effect.signals ++ srv.signals }

/-- The world of the executor's next step: its next command is the first in
the channel. -/
def world (srv : Server) (w : World) : World :=
  { w with command := srv.queue.head? }

/-- A step of the executor. -/
def execute (cfg : Config) (srv : Server) (w : World) : Server :=
  let new := commandTaken (srv.world w) srv.executor
  { srv with
    executor := step cfg (srv.world w) srv.executor
    queue := srv.queue.drop new.length
    taken := srv.taken ++ new }

end Server

/-- Who acts next. -/
inductive Action where
  | connect (i : ReplySender) (uid : Option Nat)
  | serve (i : ReplySender) (io : Io)
  | execute (w : World)
  /-- The executor returns, and drops the channel and what is parked. -/
  | disconnect

/-- One step of the system.  The number of a connection is given once. -/
def Server.step (cfg : Config) (fromStr : String → Except String Request)
    (action : Action) (srv : Server) : Server :=
  match action with
  | .connect i uid =>
      match srv.conns i with
      | some _ => srv
      | none => { srv with
          conns := Function.update srv.conns i (some ⟨uid, none, .accepted⟩) }
  | .serve i io =>
      match srv.conns i with
      | some conn => srv.serve i (srv.handleConnection fromStr i io conn)
      | none => srv
  | .execute w => if srv.ended then srv else srv.execute cfg w
  | .disconnect =>
      if srv.executor.phase.finished then
        { srv with ended := true, queue := [] }
      else srv

/-- The system when the executor enters its loop. -/
def Server.initial (cfg : Config)
    (readFile : String → Except String String) (order : IterOrder String)
    (g : ServiceGraph) (services : List ServiceDef) : Server where
  executor := FlintInit.initial cfg readFile order g services
  ended := false
  queue := []
  conns := fun _ => none
  sent := []
  taken := []
  signals := []

/-! ## What a connection can do -/

/-- Everything one step of a connection's thread can come to. -/
inductive EffectCase (srv : Server) (i : ReplySender) (conn : Connection) :
    Effect → Prop
  | still (hstage : conn.stage = .waiting → srv.answerFor i = none ∧
        srv.Holds i) (hend : conn.stage = .waiting ∨ conn.stage = .closed ∨
        ∃ response, conn.stage = .answered response) :
      EffectCase srv i conn ⟨conn, none, []⟩
  | turnedAway (hstage : conn.stage = .accepted) (huid : conn.uid ≠ some 0)
      {stage : Stage} (hnext : stage = .closed ∨ stage = .answered .denied) :
      EffectCase srv i conn (conn.goTo stage)
  | letIn (hstage : conn.stage = .accepted) (huid : conn.uid = some 0)
      {stage : Stage} (hnext : stage = .closed ∨ stage = .reading) :
      EffectCase srv i conn (conn.goTo stage)
  | unread (hstage : conn.stage = .reading) {stage : Stage}
      (hnext : stage = .closed ∨ ∃ e,
        stage = .answered (.error ("invalid request: " ++ e))) :
      EffectCase srv i conn (conn.goTo stage)
  | lookedUp (hstage : conn.stage = .reading) {request : Request}
      (hcommand : request.command i = none) {stage : Stage}
      (hnext : (∃ service pid, stage = .found service pid) ∨
        ∃ response, stage = .answered response) :
      EffectCase srv i conn
        (Connection.goTo { conn with request := some request } stage)
  | refused (hstage : conn.stage = .reading) {request : Request}
      {command : CtlCommand} (hcommand : request.command i = some command)
      (hended : srv.ended = true) :
      EffectCase srv i conn
        (Connection.respond { conn with request := some request }
          .disconnected)
  | passedOn (hstage : conn.stage = .reading) {request : Request}
      {command : CtlCommand} (hcommand : request.command i = some command)
      (hended : srv.ended = false) :
      EffectCase srv i conn
        ⟨⟨conn.uid, some request, .waiting⟩, some command, []⟩
  | signalled {service : String} {pid : Pid}
      (hstage : conn.stage = .found service pid) :
      EffectCase srv i conn
        ⟨{ conn with stage := .answered .ok }, none,
          [(service, pid, .sigterm)]⟩
  | told (hstage : conn.stage = .waiting) {answer : Except ReplyError Unit}
      (hanswer : srv.answerFor i = some answer) :
      EffectCase srv i conn (conn.respond (.ofAnswer answer))
  | cutOff (hstage : conn.stage = .waiting)
      (hanswer : srv.answerFor i = none) (hheld : ¬ srv.Holds i) :
      EffectCase srv i conn (conn.respond .disconnected)

/-- A thread that has read a start, restart or reload puts it on the queue, or
finds the executor gone and says so. -/
theorem sendCommand_cases {srv : Server} {i : ReplySender}
    {conn : Connection} (hstage : conn.stage = .reading) {request : Request}
    {command : CtlCommand} (hcommand : request.command i = some command) :
    EffectCase srv i conn
      (srv.sendCommand { conn with request := some request } command) := by
  unfold Server.sendCommand
  split
  · rename_i hended
    exact .refused hstage hcommand hended
  · rename_i hended
    exact .passedOn hstage hcommand (Bool.eq_false_iff.mpr hended)

/-- **The cases of a connection's step.** The peer is looked at first, then the
request; a command is passed on, a signal is sent, or an answer is given, and a
thread that has passed a command on waits for the answer. -/
theorem handleConnection_cases (fromStr : String → Except String Request)
    (srv : Server) (i : ReplySender) (io : Io) (conn : Connection) :
    EffectCase srv i conn (srv.handleConnection fromStr i io conn) := by
  unfold Server.handleConnection
  split
  · rename_i hstage
    split
    · rename_i huid
      refine .letIn hstage huid ?_
      cases io.clone <;> simp
    · rename_i huid
      split
      · exact .turnedAway hstage huid (.inr rfl)
      · exact .turnedAway hstage huid (.inl rfl)
  · rename_i hstage
    split
    · exact .unread hstage (.inl rfl)
    · exact .unread hstage (.inl rfl)
    · split
      · rename_i e _
        exact .unread hstage (.inr ⟨e, rfl⟩)
      · rename_i request _
        unfold Server.handleRequest
        split
        · exact .lookedUp hstage rfl (.inr ⟨_, rfl⟩)
        · split
          · exact .lookedUp hstage rfl (.inl ⟨_, _, rfl⟩)
          · exact .lookedUp hstage rfl (.inr ⟨_, rfl⟩)
        · exact sendCommand_cases hstage rfl
        · exact sendCommand_cases hstage rfl
        · exact sendCommand_cases hstage rfl
  · rename_i service pid hstage
    exact .signalled hstage
  · rename_i hstage
    unfold Server.awaitAnswer
    split
    · rename_i answer hanswer
      exact .told hstage hanswer
    · rename_i hanswer
      split
      · rename_i hheld
        exact .still (fun _ => ⟨hanswer, hheld⟩) (.inl hstage)
      · rename_i hheld
        exact .cutOff hstage hanswer hheld
  · rename_i response hstage
    exact .still (by simp [hstage]) (.inr (.inr ⟨response, hstage⟩))
  · rename_i hstage
    exact .still (by simp [hstage]) (.inr (.inl hstage))

/-- Everything one step of the system can come to. -/
inductive StepCase (cfg : Config) (srv srv' : Server) : Action → Prop
  | still {action : Action} (hsame : srv' = srv) : StepCase cfg srv srv' action
  | opened {i : ReplySender} {uid : Option Nat} (hfresh : srv.conns i = none)
      (hnext : srv' = { srv with
        conns := Function.update srv.conns i (some ⟨uid, none, .accepted⟩) }) :
      StepCase cfg srv srv' (.connect i uid)
  | served {i : ReplySender} {io : Io} {conn : Connection} {effect : Effect}
      (hconn : srv.conns i = some conn)
      (heffect : EffectCase srv i conn effect)
      (hnext : srv' = srv.serve i effect) :
      StepCase cfg srv srv' (.serve i io)
  | executed {w : World} (hgoing : srv.ended = false)
      (hnext : srv' = srv.execute cfg w) : StepCase cfg srv srv' (.execute w)
  | disconnected (hfinished : srv.executor.phase.finished = true)
      (hnext : srv' = { srv with ended := true, queue := [] }) :
      StepCase cfg srv srv' .disconnect

/-- **The cases of a step of the system.** Either one thread moves, or the
executor does, or the executor ends and drops what is left on its queue. -/
theorem step_cases (cfg : Config) (fromStr : String → Except String Request)
    (srv : Server) (action : Action) :
    StepCase cfg srv (srv.step cfg fromStr action) action := by
  unfold Server.step
  cases action with
  | connect i uid =>
      dsimp only
      split
      · exact .still rfl
      · rename_i hfresh
        exact .opened hfresh rfl
  | serve i io =>
      dsimp only
      split
      · rename_i conn hconn
        exact .served hconn (handleConnection_cases ..) rfl
      · exact .still rfl
  | execute w =>
      dsimp only
      split
      · exact .still rfl
      · rename_i hgoing
        exact .executed (Bool.eq_false_iff.mpr hgoing) rfl
  | disconnect =>
      dsimp only
      split
      · rename_i hfinished
        exact .disconnected hfinished rfl
      · exact .still rfl

/-! ## Peers without permission -/

/-- The connections that an action is a step of. -/
def Action.concerns : Action → Option ReplySender
  | .connect i _ => some i
  | .serve i _ => some i
  | .execute _ => none
  | .disconnect => none

/-- The action is a step of one of the connections `U`. -/
def Action.hiddenBy (U : ReplySender → Bool) (action : Action) : Bool :=
  action.concerns.any U

/-- The two differ in the connections `U` only. -/
def SameBut (U : ReplySender → Bool) (s t : Server) : Prop :=
  ∃ conns, t = { s with conns := conns } ∧
    ∀ i, U i = false → s.conns i = conns i

/-- None of the connections `U` belongs to root, and none has come further
than being turned away. -/
def Excluded (U : ReplySender → Bool) (srv : Server) : Prop :=
  ∀ i conn, U i = true → srv.conns i = some conn →
    conn.uid ≠ some 0 ∧ conn.request = none ∧
      (conn.stage = .accepted ∨ conn.stage = .closed ∨
        conn.stage = .answered .denied)

/-- A connection of `U` is not opened by root. -/
def OpenedBy (U : ReplySender → Bool) : Action → Prop
  | .connect i uid => U i = true → uid ≠ some 0
  | _ => True

section Denied

variable {cfg : Config} {fromStr : String → Except String Request}
  {U : ReplySender → Bool} {srv : Server}

/-- A step of an excluded connection shows nowhere else. -/
theorem Excluded.effect (h : Excluded U srv) {i : ReplySender}
    {conn : Connection} {effect : Effect} (hi : U i = true)
    (hconn : srv.conns i = some conn) (hcase : EffectCase srv i conn effect) :
    effect.command = none ∧ effect.signals = [] ∧
      effect.conn.uid ≠ some 0 ∧ effect.conn.request = none ∧
        (effect.conn.stage = .accepted ∨ effect.conn.stage = .closed ∨
          effect.conn.stage = .answered .denied) := by
  obtain ⟨huid, hrequest, hstage⟩ := h i conn hi hconn
  cases hcase with
  | still => exact ⟨rfl, rfl, huid, hrequest, hstage⟩
  | turnedAway _ _ hnext => exact ⟨rfl, rfl, huid, hrequest, .inr hnext⟩
  | letIn _ hroot => exact absurd hroot huid
  | unread hreading => simp [hreading] at hstage
  | lookedUp hreading => simp [hreading] at hstage
  | refused hreading => simp [hreading] at hstage
  | passedOn hreading => simp [hreading] at hstage
  | signalled hfound => simp [hfound] at hstage
  | told hwaiting => simp [hwaiting] at hstage
  | cutOff hwaiting => simp [hwaiting] at hstage

/-- A connection that is not root's is turned away before its request is read,
so no step brings it further. -/
theorem Excluded.step (h : Excluded U srv) {action : Action}
    (hopened : OpenedBy U action) :
    Excluded U (srv.step cfg fromStr action) := by
  intro i conn hi hconn
  have hcase := step_cases cfg fromStr srv action
  cases hcase with
  | still hsame =>
      rw [hsame] at hconn
      exact h i conn hi hconn
  | @opened j uid hfresh hnext =>
      rw [hnext] at hconn
      by_cases hij : i = j
      · subst hij
        dsimp only at hconn
        rw [Function.update_self] at hconn
        cases hconn
        exact ⟨hopened hi, rfl, .inl rfl⟩
      · dsimp only at hconn
        rw [Function.update_of_ne hij] at hconn
        exact h i conn hi hconn
  | @served j io old effect hold heffect hnext =>
      rw [hnext] at hconn
      by_cases hij : i = j
      · subst hij
        simp only [Server.serve, Function.update_self] at hconn
        cases hconn
        exact (h.effect hi hold heffect).2.2
      · simp only [Server.serve, Function.update_of_ne hij] at hconn
        exact h i conn hi hconn
  | executed hgoing hnext =>
      rw [hnext] at hconn
      exact h i conn hi hconn
  | disconnected hfinished hnext =>
      rw [hnext] at hconn
      exact h i conn hi hconn

/-- A step of an excluded connection changes that connection and nothing else.
-/
theorem SameBut.hidden {t : Server} (h : SameBut U srv t)
    (hexcluded : Excluded U srv) {action : Action}
    (hhidden : action.hiddenBy U = true) :
    SameBut U (srv.step cfg fromStr action) t := by
  obtain ⟨conns, rfl, hconns⟩ := h
  have hothers : ∀ i conn, U i = true → ∀ j, U j = false →
      Function.update srv.conns i (some conn) j = conns j := by
    intro i conn hi j hj
    have hne : j ≠ i := by
      rintro rfl
      rw [hi] at hj
      cases hj
    rw [Function.update_of_ne hne]
    exact hconns j hj
  cases step_cases cfg fromStr srv action with
  | still hsame =>
      rw [hsame]
      exact ⟨conns, rfl, hconns⟩
  | @opened i uid hfresh hnext =>
      rw [hnext]
      exact ⟨conns, rfl, hothers i _ hhidden⟩
  | @served i io conn effect hold heffect hnext =>
      obtain ⟨hcommand, hsignals, -⟩ :=
        hexcluded.effect hhidden hold heffect
      rw [hnext]
      refine ⟨conns, ?_, hothers i _ hhidden⟩
      simp [Server.serve, hcommand, hsignals]
  | executed => cases hhidden
  | disconnected => cases hhidden

/-- Two ways of being updated alike. -/
theorem update_eq_of_eq {f g : ReplySender → Option Connection}
    (h : ∀ j, U j = false → f j = g j) (i : ReplySender)
    (conn : Connection) : ∀ j, U j = false →
      Function.update f i (some conn) j =
        Function.update g i (some conn) j := by
  intro j hj
  by_cases hij : j = i
  · subst hij
    rw [Function.update_self, Function.update_self]
  · rw [Function.update_of_ne hij, Function.update_of_ne hij]
    exact h j hj

/-- Every other step does the same in both, since it reads nothing of the
connections in which they differ. -/
theorem SameBut.seen {t : Server} (h : SameBut U srv t) {action : Action}
    (hseen : action.hiddenBy U = false) :
    SameBut U (srv.step cfg fromStr action)
      (t.step cfg fromStr action) := by
  obtain ⟨conns, rfl, hconns⟩ := h
  unfold Server.step
  cases action with
  | connect i uid =>
      have hi : srv.conns i = conns i := hconns i hseen
      dsimp only
      rw [hi]
      cases conns i with
      | some conn => exact ⟨conns, rfl, hconns⟩
      | none => exact ⟨_, rfl, update_eq_of_eq hconns i _⟩
  | serve i io =>
      have hi : srv.conns i = conns i := hconns i hseen
      dsimp only
      rw [hi]
      cases conns i with
      | none => exact ⟨conns, rfl, hconns⟩
      | some conn =>
          -- the thread looks at its own connection and at what is shared
          exact ⟨_, rfl, update_eq_of_eq hconns i _⟩
  | execute w =>
      dsimp only
      split
      · exact ⟨conns, rfl, hconns⟩
      · exact ⟨conns, rfl, hconns⟩
  | disconnect =>
      dsimp only
      split
      · exact ⟨conns, rfl, hconns⟩
      · exact ⟨conns, rfl, hconns⟩

instance (U : ReplySender → Bool) : DecidablePred (OpenedBy U)
  | .connect i uid => inferInstanceAs (Decidable (U i = true → uid ≠ some 0))
  | .serve _ _ => .isTrue True.intro
  | .execute _ => .isTrue True.intro
  | .disconnect => .isTrue True.intro

/-- **Peers without permission do not matter.**  Take any run and any set of
connections none of which root has opened.  Everything else is as in the run
without them: the executor and all it has done, the channel, the signals sent
and the other connections.  None of them has had a line read, and none is told
anything but that permission is denied. -/
theorem unprivileged_unseen (cfg : Config)
    (fromStr : String → Except String Request)
    (readFile : String → Except String String) (order : IterOrder String)
    (g : ServiceGraph) (services : List ServiceDef) (actions : List Action)
    (U : ReplySender → Bool) (hopened : ∀ action ∈ actions, OpenedBy U action) :
    let srv₀ := Server.initial cfg readFile order g services
    let srv := run (Server.step cfg fromStr) srv₀ actions
    SameBut U srv (run (Server.step cfg fromStr) srv₀
        (actions.filter fun action => !action.hiddenBy U)) ∧
      Excluded U srv := by
  intro srv₀ srv
  have hexcluded : Excluded U srv₀ := fun _ _ _ h => nomatch h
  refine ⟨?_, ?_⟩
  · refine run_erase (Action.hiddenBy U) (OpenedBy U) (Excluded U)
      (SameBut U) ?_ ?_ ?_ actions srv₀ srv₀ hopened hexcluded ?_
    · exact fun action s hw h => h.step hw
    · exact fun action s t _ hhidden hs hst => hst.hidden hs hhidden
    · exact fun action s t _ hseen hst => hst.seen hseen
    · exact ⟨srv₀.conns, rfl, fun _ _ => rfl⟩
  · exact run_keeps (Excluded U) (OpenedBy U)
      (fun action s hw h => h.step hw) actions srv₀ hopened hexcluded

end Denied

/-- The line that asks for a restart of the job. -/
def restartLine : String :=
  "\x7b\"cmd\":\"restart\",\"service\":\"job\"\x7d"

/-- What is read in `restartLine`, and in nothing else. -/
def readRestart (line : String) : Except String Request :=
  if line = restartLine then .ok (.restart "job")
  else .error "expected value at line 1 column 1"

/-- A thread that finds a line. -/
def Io.ofLine (line : String) : Io := ⟨true, some (.ok line), .asStored _⟩

/-- Root restarts the running job while another user tries the same. -/
def restartSession : List Action :=
  List.replicate 9 (.execute .idle) ++
    [.connect 0 (some 0), .connect 1 (some 1000),
      .serve 0 (.ofLine restartLine), .serve 1 (.ofLine restartLine),
      .serve 0 (.ofLine restartLine), .serve 1 (.ofLine restartLine)] ++
    List.replicate 5 (.execute .idle) ++
    [.execute { World.idle with waitpid := .signaled 15 },
      .serve 0 (.ofLine restartLine)]

/-- The other user's restart is as if it had not been tried. -/
theorem unprivileged_unseen_restart :
    ∃ g, ServiceGraph.build .asStored oneJob = .ok (.ok g) ∧
      let srv₀ := Server.initial .bare (fun _ => .error "") (.asStored _) g
        oneJob
      let srv := run (Server.step .bare readRestart) srv₀ restartSession
      SameBut (· == 1) srv (run (Server.step .bare readRestart) srv₀
          (restartSession.filter fun action => !action.hiddenBy (· == 1))) ∧
        Excluded (· == 1) srv :=
  ⟨_, rfl, unprivileged_unseen .bare readRestart (fun _ => .error "")
    (.asStored _) _ oneJob restartSession (· == 1) (by decide +kernel)⟩

/-! ## What becomes of a command -/

/-- How far the connection of a command sent can be. -/
inductive Fate (srv : Server) (i : ReplySender) : Stage → Prop
  | waiting : Fate srv i .waiting
  | told {answer : Except ReplyError Unit}
      (hanswer : (i, answer) ∈ srv.executor.replies) :
      Fate srv i (.answered (.ofAnswer answer))
  | cutOff (hnone : ∀ answer, (i, answer) ∉ srv.executor.replies)
      (hheld : ¬ srv.Holds i) : Fate srv i (.answered .disconnected)

/-- The command is what root has asked for on the connection it is answered
on. -/
structure Client (srv : Server) (command : CtlCommand) (conn : Connection) :
    Prop where
  here : srv.conns command.reply = some conn
  root : conn.uid = some 0
  request : ∃ request, conn.request = some request ∧
    request.command command.reply = some command
  fate : Fate srv command.reply conn.stage

/-- What every run of the system keeps. -/
structure Consistent (srv : Server) : Prop where
  /-- The channel is first in, first out, and loses nothing until its end. -/
  order : ∃ lost, srv.taken ++ srv.queue ++ lost = srv.sent ∧
    (srv.ended = false → lost = [])
  nodup : (srv.sent.map CtlCommand.reply).Nodup
  clients : ∀ command ∈ srv.sent, ∃ conn, Client srv command conn
  inHand : (inHand srv.executor).Subperm (srv.taken.map CtlCommand.reply)
  parkedFor : ParkedFor srv.taken srv.executor
  seenTo : ∀ command ∈ srv.taken, SeenTo srv.taken srv.executor command
  reading : ∀ i conn, srv.conns i = some conn → conn.stage = .reading →
    conn.uid = some 0
  unsent : ∀ i conn request command, srv.conns i = some conn →
    conn.request = some request → request.command i = some command →
    command ∈ srv.sent ∨
      (conn.stage = .answered .disconnected ∧ srv.ended = true)

section Served

variable {srv : Server} {i : ReplySender} {conn : Connection}

/-- A command carries the sender of its own connection. -/
theorem Request.command_reply {request : Request} {command : CtlCommand}
    (h : request.command i = some command) : command.reply = i := by
  cases request with
  | status => cases h
  | stop service => cases h
  | start service => cases h; rfl
  | restart service => cases h; rfl
  | reload service => cases h; rfl

/-- An answer that a thread receives has been sent by the executor. -/
theorem mem_replies_of_answerFor {answer : Except ReplyError Unit}
    (h : srv.answerFor i = some answer) :
    (i, answer) ∈ srv.executor.replies := by
  obtain ⟨p, hp, rfl⟩ := Option.map_eq_some_iff.mp h
  have hi : p.1 = i := by simpa using List.find?_some hp
  rw [← hi]
  exact List.mem_of_find?_eq_some hp

/-- A thread that receives nothing has not been answered. -/
theorem notMem_replies_of_answerFor (h : srv.answerFor i = none) :
    ∀ answer, (i, answer) ∉ srv.executor.replies := by
  intro answer hin
  have hnone := List.find?_eq_none.mp (Option.map_eq_none_iff.mp h)
  simpa using hnone _ hin

/-- The executor's next command is the first in the channel. -/
theorem commandTaken_world (w : World) :
    commandTaken (srv.world w) srv.executor ++
      srv.queue.drop (commandTaken (srv.world w) srv.executor).length =
        srv.queue := by
  unfold commandTaken
  split
  · rename_i command _ hcommand
    obtain ⟨rest, hrest⟩ := List.head?_eq_some_iff.mp
      (show srv.queue.head? = some command from hcommand)
    rw [hrest]
    rfl
  · rfl

/-- The executor takes only what is on the queue. -/
theorem mem_queue_of_taken {w : World} {r : ReplySender}
    (h : r ∈ taken (srv.world w) srv.executor) :
    r ∈ srv.queue.map CtlCommand.reply := by
  rw [taken_eq] at h
  rw [← commandTaken_world w, List.map_append]
  exact List.mem_append_left _ h

/-- What is held after a step of the executor was held before. -/
theorem Holds.of_execute {cfg : Config} {w : World}
    (h : (srv.execute cfg w).Holds i) : srv.Holds i := by
  obtain ⟨hgoing, hheld⟩ := h
  refine ⟨hgoing, ?_⟩
  rcases hheld with hqueue | hparked
  · obtain ⟨command, hcommand, hreply⟩ := List.mem_map.mp hqueue
    exact .inl (List.mem_map.mpr
      ⟨command, List.mem_of_mem_drop hcommand, hreply⟩)
  · have hcase := FlintInit.step_cases cfg (srv.world w) srv.executor
    rcases hcase.office.parks hparked with hnew | hold
    · exact .inl (mem_queue_of_taken hnew)
    · exact .inr hold

/-- A step of the executor changes no fate: it answers only who is waiting. -/
theorem Fate.execute {cfg : Config} {w : World} {stage : Stage}
    (h : Fate srv i stage) (hgoing : srv.ended = false) :
    Fate (srv.execute cfg w) i stage := by
  have hcase := FlintInit.step_cases cfg (srv.world w) srv.executor
  obtain ⟨new, hreplies, hnew⟩ := hcase.office.answers
  cases h with
  | waiting => exact .waiting
  | told hanswer =>
      refine .told ?_
      change _ ∈ (step cfg (srv.world w) srv.executor).replies
      rw [hreplies]
      exact List.mem_append_right _ hanswer
  | cutOff hnone hheld =>
      refine .cutOff ?_ (fun h => hheld (Holds.of_execute h))
      intro answer hin
      change _ ∈ (step cfg (srv.world w) srv.executor).replies at hin
      rw [hreplies] at hin
      rcases List.mem_append.mp hin with hin | hold
      · refine hheld ⟨hgoing, ?_⟩
        rcases hnew _ hin with htaken | hparked
        · exact .inl (mem_queue_of_taken htaken)
        · exact .inr hparked
      · exact hnone answer hold

/-- Who has passed a command on is waiting or has been answered. -/
theorem Fate.late {stage : Stage} (h : Fate srv i stage) :
    stage = .waiting ∨ ∃ response, stage = .answered response := by
  cases h with
  | waiting => exact .inl rfl
  | told => exact .inr ⟨_, rfl⟩
  | cutOff => exact .inr ⟨_, rfl⟩

/-- Where nothing is answered and no sender is taken up. -/
theorem Fate.mono {srv' : Server} {stage : Stage} (h : Fate srv i stage)
    (hreplies : srv'.executor.replies = srv.executor.replies)
    (hheld : srv'.Holds i → srv.Holds i) : Fate srv' i stage := by
  cases h with
  | waiting => exact .waiting
  | told hanswer => exact .told (hreplies ▸ hanswer)
  | cutOff hnone hcut =>
      exact .cutOff (hreplies ▸ hnone) (fun h => hcut (hheld h))

/-- A step of a connection that passes no command on. -/
theorem serve_quiet (conn : Connection)
    (signals : List (String × Pid × Signal)) :
    srv.serve i ⟨conn, none, signals⟩ = { srv with
      conns := Function.update srv.conns i (some conn)
      signals := signals ++ srv.signals } := by
  simp [Server.serve]

end Served

namespace Consistent

variable {cfg : Config} {fromStr : String → Except String Request}
  {srv : Server} {i : ReplySender} {conn : Connection}

/-- A step of the executor keeps what is known of each command and its
connection, as long as it runs. -/
theorem execute (h : Consistent srv) (hgoing : srv.ended = false)
    (w : World) : Consistent (srv.execute cfg w) := by
  have hoffice := (FlintInit.step_cases cfg (srv.world w)
    srv.executor).office
  obtain ⟨lost, horder, hlost⟩ := h.order
  have hsent : srv.taken ++ srv.queue = srv.sent := by
    rw [← horder, hlost hgoing, List.append_nil]
  have hnodup : (srv.taken.map CtlCommand.reply).Nodup := by
    have hall := h.nodup
    rw [← hsent, List.map_append] at hall
    exact hall.of_append_left
  refine ⟨⟨[], ?_, fun _ => rfl⟩, h.nodup, ?_, ?_, ?_, ?_, h.reading,
    h.unsent⟩
  · change srv.taken ++ commandTaken _ _ ++ List.drop _ _ ++ [] = srv.sent
    rw [List.append_nil, List.append_assoc, commandTaken_world, hsent]
  · intro command hin
    obtain ⟨conn, hclient⟩ := h.clients command hin
    exact ⟨conn, hclient.here, hclient.root, hclient.request,
      hclient.fate.execute hgoing⟩
  · change (FlintInit.inHand _).Subperm ((srv.taken ++ _).map _)
    rw [List.map_append, ← taken_eq]
    exact hoffice.inHand h.inHand
  · exact hoffice.parkedFor h.parkedFor
  · refine hoffice.seenTo ?_ hnodup h.parkedFor h.seenTo
    intro hdead
    rw [step_dead hdead]
    exact hdead

/-- When the executor ends, what is left on the queue is dropped and those that
wait are cut off. -/
theorem disconnect (h : Consistent srv) :
    Consistent { srv with ended := true, queue := [] } := by
  obtain ⟨lost, horder, _⟩ := h.order
  refine ⟨⟨srv.queue ++ lost, ?_, fun hgoing => nomatch hgoing⟩, h.nodup, ?_,
    h.inHand, h.parkedFor, h.seenTo, h.reading, ?_⟩
  · rw [← horder]
    simp
  · intro command hin
    obtain ⟨conn, hclient⟩ := h.clients command hin
    exact ⟨conn, hclient.here, hclient.root, hclient.request,
      hclient.fate.mono rfl (by simp [Server.Holds])⟩
  · intro i conn request command hconn hrequest hcommand
    exact (h.unsent i conn request command hconn hrequest hcommand).imp_right
      (fun hended => ⟨hended.1, rfl⟩)

/-- A connection moves on without passing a command on. What is known of the
commands sent is unchanged, but for the one that this connection may have sent
before, whose client it remains. -/
theorem moved (h : Consistent srv) (hconn : srv.conns i = some conn)
    (next : Connection) (signals : List (String × Pid × Signal))
    (hclient : ∀ command, Client srv command conn → command.reply = i →
      next.uid = conn.uid ∧ next.request = conn.request ∧
        Fate srv i next.stage)
    (hreading : next.stage = .reading → next.uid = some 0)
    (hunsent : ∀ request command, next.request = some request →
      request.command i = some command → command ∈ srv.sent ∨
        (next.stage = .answered .disconnected ∧ srv.ended = true)) :
    Consistent (srv.serve i ⟨next, none, signals⟩) := by
  rw [serve_quiet]
  refine ⟨h.order, h.nodup, ?_, h.inHand, h.parkedFor, h.seenTo, ?_, ?_⟩
  · intro command hin
    obtain ⟨old, hold⟩ := h.clients command hin
    by_cases hreply : command.reply = i
    · have hsame : old = conn := by
        have hhere := hold.here
        rw [hreply, hconn] at hhere
        exact (Option.some.inj hhere).symm
      subst hsame
      obtain ⟨huid, hrequest, hfate⟩ := hclient command hold hreply
      refine ⟨next, ?_, huid.trans hold.root, ?_, ?_⟩
      · rw [hreply]
        exact Function.update_self ..
      · rw [hrequest]
        exact hold.request
      · rw [hreply]
        exact hfate.mono rfl id
    · refine ⟨old, ?_, hold.root, hold.request, hold.fate.mono rfl id⟩
      exact (Function.update_of_ne hreply _ _).trans hold.here
  · intro j c hj
    by_cases hij : j = i
    · subst hij
      dsimp only at hj
      rw [Function.update_self] at hj
      cases hj
      exact hreading
    · dsimp only at hj
      rw [Function.update_of_ne hij] at hj
      exact h.reading j c hj
  · intro j c request command hj
    by_cases hij : j = i
    · subst hij
      dsimp only at hj
      rw [Function.update_self] at hj
      cases hj
      exact hunsent request command
    · dsimp only at hj
      rw [Function.update_of_ne hij] at hj
      exact h.unsent j c request command hj

/-- The connection of a command sent is waiting or has been answered. -/
theorem not_client (h : Consistent srv) (hconn : srv.conns i = some conn)
    (hearly : conn.stage ≠ .waiting ∧
      ∀ response, conn.stage ≠ .answered response) :
    ∀ command ∈ srv.sent, command.reply ≠ i := by
  intro command hin hreply
  obtain ⟨old, hold⟩ := h.clients command hin
  have hhere := hold.here
  rw [hreply, hconn] at hhere
  cases hhere
  rcases hold.fate.late with hwaiting | ⟨response, hanswered⟩
  · exact hearly.1 hwaiting
  · exact hearly.2 response hanswered

/-- A command is passed on. Its sender is the connection's own and has not been
used before, so the commands stay without repetition, and the connection waits.
-/
theorem passOn (h : Consistent srv) (hconn : srv.conns i = some conn)
    (hstage : conn.stage = .reading) {request : Request}
    {command : CtlCommand} (hcommand : request.command i = some command)
    (hgoing : srv.ended = false) :
    Consistent
      (srv.serve i ⟨⟨conn.uid, some request, .waiting⟩, some command, []⟩) := by
  have hreply : command.reply = i := Request.command_reply hcommand
  have hnew : ∀ old ∈ srv.sent, old.reply ≠ i :=
    h.not_client hconn (by simp [hstage])
  obtain ⟨lost, horder, hlost⟩ := h.order
  refine ⟨⟨[], ?_, fun _ => rfl⟩, ?_, ?_, h.inHand, h.parkedFor, h.seenTo,
    ?_, ?_⟩
  · change srv.taken ++ (srv.queue ++ [command]) ++ [] = srv.sent ++ [command]
    rw [← horder, hlost hgoing]
    simp
  · change ((srv.sent ++ [command]).map CtlCommand.reply).Nodup
    rw [List.map_append]
    refine h.nodup.append (List.nodup_singleton _) ?_
    intro r hold hr
    obtain ⟨old, hin, hold⟩ := List.mem_map.mp hold
    rw [List.map_singleton, List.mem_singleton, hreply] at hr
    exact hnew old hin (hold.trans hr)
  · intro other hin
    change other ∈ srv.sent ++ [command] at hin
    rcases List.mem_append.mp hin with hin | hin
    · obtain ⟨old, hold⟩ := h.clients other hin
      have hne := hnew other hin
      refine ⟨old, ?_, hold.root, hold.request, hold.fate.mono rfl ?_⟩
      · exact (Function.update_of_ne hne _ _).trans hold.here
      · rintro ⟨_, hheld⟩
        refine ⟨hgoing, ?_⟩
        change other.reply ∈ (srv.queue ++ [command]).map _ ∨ _ at hheld
        rw [List.map_append, List.mem_append] at hheld
        rcases hheld with (hqueue | hlast) | hparked
        · exact .inl hqueue
        · rw [List.map_singleton, List.mem_singleton, hreply] at hlast
          exact absurd hlast hne
        · exact .inr hparked
    · cases List.mem_singleton.mp hin
      refine ⟨⟨conn.uid, some request, .waiting⟩, ?_,
        h.reading i conn hconn hstage, ⟨request, rfl, ?_⟩, .waiting⟩
      · rw [hreply]
        exact Function.update_self ..
      · rw [hreply]
        exact hcommand
  · intro j c hj
    by_cases hij : j = i
    · subst hij
      simp only [Server.serve, Function.update_self] at hj
      cases hj
      exact fun h => nomatch h
    · simp only [Server.serve, Function.update_of_ne hij] at hj
      exact h.reading j c hj
  · intro j c request' command' hj
    by_cases hij : j = i
    · subst hij
      simp only [Server.serve, Function.update_self] at hj
      cases hj
      intro hrequest hcommand'
      cases hrequest
      rw [hcommand] at hcommand'
      cases hcommand'
      exact .inl (List.mem_append_right _ List.mem_cons_self)
    · simp only [Server.serve, Function.update_of_ne hij] at hj
      intro hrequest hcommand'
      exact (h.unsent j c request' command' hj hrequest hcommand').imp_left
        (List.mem_append_left _)

/-- A step of one connection's thread keeps it, too: only that connection
moves, and a command goes to the end of the queue. -/
theorem serve (h : Consistent srv) (hconn : srv.conns i = some conn)
    {effect : Effect} (hcase : EffectCase srv i conn effect) :
    Consistent (srv.serve i effect) := by
  -- a connection that has not passed its command on is no client
  have hearly : (conn.stage ≠ .waiting ∧
        ∀ response, conn.stage ≠ .answered response) →
      ∀ (next : Connection) (command : CtlCommand),
        Client srv command conn → command.reply = i →
          next.uid = conn.uid ∧ next.request = conn.request ∧
            Fate srv i next.stage := by
    intro hne next command hclient hreply
    rcases hclient.fate.late with hwaiting | ⟨response, hanswered⟩
    · exact absurd hwaiting hne.1
    · exact absurd hanswered (hne.2 response)
  have hkept : conn.stage ≠ .answered .disconnected →
      ∀ request command, conn.request = some request →
        request.command i = some command → command ∈ srv.sent := by
    intro hne request command hrequest hcommand
    rcases h.unsent i conn request command hconn hrequest hcommand with
      hsent | ⟨hstage, _⟩
    · exact hsent
    · exact absurd hstage hne
  cases hcase with
  | still hwaiting hend =>
      refine h.moved hconn conn [] ?_ (h.reading i conn hconn) ?_
      · exact fun command hclient hreply =>
          ⟨rfl, rfl, hreply ▸ hclient.fate⟩
      · exact fun request command => h.unsent i conn request command hconn
  | turnedAway hstage huid hnext =>
      refine h.moved hconn _ [] (hearly (by simp [hstage]) _) ?_ ?_
      · rcases hnext with rfl | rfl
        · exact fun h => nomatch h
        · exact fun h => nomatch h
      · intro request command hrequest hcommand
        exact .inl (hkept (by simp [hstage]) request command hrequest hcommand)
  | letIn hstage huid hnext =>
      refine h.moved hconn _ [] (hearly (by simp [hstage]) _)
        (fun _ => huid) ?_
      intro request command hrequest hcommand
      exact .inl (hkept (by simp [hstage]) request command hrequest hcommand)
  | unread hstage hnext =>
      refine h.moved hconn _ [] (hearly (by simp [hstage]) _) ?_ ?_
      · exact fun _ => h.reading i conn hconn hstage
      · intro request command hrequest hcommand
        exact .inl (hkept (by simp [hstage]) request command hrequest hcommand)
  | lookedUp hstage hnone hnext =>
      refine h.moved hconn _ [] (hearly (by simp [hstage]) _) ?_ ?_
      · exact fun _ => h.reading i conn hconn hstage
      · intro request command hrequest hcommand
        cases hrequest
        rw [hnone] at hcommand
        cases hcommand
  | refused hstage hsome hended =>
      exact h.moved hconn _ [] (hearly (by simp [hstage]) _)
        (fun h => nomatch h) (fun _ _ _ _ => .inr ⟨rfl, hended⟩)
  | passedOn hstage hsome hgoing =>
      exact h.passOn hconn hstage hsome hgoing
  | signalled hstage =>
      refine h.moved hconn _ _ (hearly (by simp [hstage]) _)
        (fun h => nomatch h) ?_
      intro request command hrequest hcommand
      exact .inl (hkept (by simp [hstage]) request command hrequest hcommand)
  | told hstage hanswer =>
      refine h.moved hconn _ [] ?_ (fun h => nomatch h) ?_
      · exact fun command hclient hreply =>
          ⟨rfl, rfl, .told (mem_replies_of_answerFor hanswer)⟩
      · intro request command hrequest hcommand
        exact .inl (hkept (by simp [hstage]) request command hrequest hcommand)
  | cutOff hstage hanswer hheld =>
      refine h.moved hconn _ [] ?_ (fun h => nomatch h) ?_
      · exact fun command hclient hreply =>
          ⟨rfl, rfl, .cutOff (notMem_replies_of_answerFor hanswer) hheld⟩
      · intro request command hrequest hcommand
        exact .inl (hkept (by simp [hstage]) request command hrequest hcommand)

/-- **Every step keeps the books.** The cases are those of the step: a thread
that moves, a command passed on, a step of the executor, and its end. -/
theorem step (h : Consistent srv) (action : Action) :
    Consistent (srv.step cfg fromStr action) := by
  cases step_cases cfg fromStr srv action with
  | still hsame =>
      rw [hsame]
      exact h
  | @opened i uid hfresh hnext =>
      rw [hnext]
      refine ⟨h.order, h.nodup, ?_, h.inHand, h.parkedFor, h.seenTo, ?_, ?_⟩
      · intro command hin
        obtain ⟨old, hold⟩ := h.clients command hin
        have hne : command.reply ≠ i := by
          intro hreply
          have hhere := hold.here
          rw [hreply, hfresh] at hhere
          cases hhere
        exact ⟨old, (Function.update_of_ne hne _ _).trans hold.here,
          hold.root, hold.request, hold.fate.mono rfl id⟩
      · intro j c hj
        by_cases hij : j = i
        · subst hij
          dsimp only at hj
          rw [Function.update_self] at hj
          cases hj
          exact fun h => nomatch h
        · dsimp only at hj
          rw [Function.update_of_ne hij] at hj
          exact h.reading j c hj
      · intro j c request command hj
        by_cases hij : j = i
        · subst hij
          dsimp only at hj
          rw [Function.update_self] at hj
          cases hj
          exact fun h => nomatch h
        · dsimp only at hj
          rw [Function.update_of_ne hij] at hj
          exact h.unsent j c request command hj
  | served hconn heffect hnext =>
      rw [hnext]
      exact h.serve hconn heffect
  | executed hgoing hnext =>
      rw [hnext]
      exact h.execute hgoing _
  | disconnected hfinished hnext =>
      rw [hnext]
      exact h.disconnect

/-- No sender has been used twice. -/
theorem nodup_replies (h : Consistent srv) :
    (srv.executor.replies.map Prod.fst).Nodup := by
  obtain ⟨lost, horder, _⟩ := h.order
  have htaken : (srv.taken.map CtlCommand.reply).Nodup := by
    have hall := h.nodup
    rw [← horder, List.map_append, List.map_append] at hall
    exact hall.of_append_left.of_append_left
  obtain ⟨hand, hperm, hsub⟩ := h.inHand
  have hhand : (FlintInit.inHand srv.executor).Nodup :=
    hperm.nodup_iff.mp (htaken.sublist hsub)
  exact hhand.of_append_left

/-- Whoever has been answered has sent a command. -/
theorem sent_of_reply (h : Consistent srv) {answer : Except ReplyError Unit}
    (hin : (i, answer) ∈ srv.executor.replies) :
    ∃ command ∈ srv.sent, command.reply = i := by
  obtain ⟨lost, horder, _⟩ := h.order
  have hhand : i ∈ FlintInit.inHand srv.executor :=
    List.mem_append_left _ (List.mem_map.mpr ⟨_, hin, rfl⟩)
  obtain ⟨command, hcommand, hreply⟩ :=
    List.mem_map.mp (h.inHand.subset hhand)
  refine ⟨command, ?_, hreply⟩
  rw [← horder, List.append_assoc]
  exact List.mem_append_left _ hcommand

/-- A connection has sent no command but the one it has asked for. -/
theorem sent_unique (h : Consistent srv) (hconn : srv.conns i = some conn)
    {request : Request} {command sent : CtlCommand}
    (hrequest : conn.request = some request)
    (hcommand : request.command i = some command) (hsent : sent ∈ srv.sent)
    (hreply : sent.reply = i) : sent = command := by
  obtain ⟨old, hold⟩ := h.clients sent hsent
  have hhere := hold.here
  rw [hreply, hconn] at hhere
  cases hhere
  obtain ⟨asked, hasked, hcommand'⟩ := hold.request
  rw [hrequest] at hasked
  cases hasked
  rw [hreply, hcommand] at hcommand'
  exact (Option.some.inj hcommand').symm

end Consistent

section Clients

variable (cfg : Config) (fromStr : String → Except String Request)
  (readFile : String → Except String String) (order : IterOrder String)
  (g : ServiceGraph) (services : List ServiceDef) (actions : List Action)

/-- However connections, threads and the executor interleave, the commands,
answers and connections fit together. -/
theorem consistent_run :
    Consistent (run (Server.step cfg fromStr)
      (Server.initial cfg readFile order g services) actions) := by
  refine run_keeps Consistent (fun _ => True)
    (fun action s _ h => h.step action) actions _ (fun _ _ => True.intro) ?_
  refine ⟨⟨[], rfl, fun _ => rfl⟩, List.nodup_nil, ?_, List.Subperm.refl _,
    ?_, ?_, ?_, ?_⟩
  · exact fun _ h => nomatch h
  · exact fun _ _ h => nomatch h
  · exact fun _ h => nomatch h
  · exact fun _ _ h => nomatch h
  · exact fun _ _ _ _ h => nomatch h

/-- **Commands go through the channel in order.**  In every run the executor
has taken the commands sent in the order in which they were sent, and none of
them twice; as long as it has not returned, all others are still in the
channel.  Each of them is what root has asked for on the connection it is to be
answered on. -/
theorem commands_in_order :
    let srv : Server := run (Server.step cfg fromStr)
      (Server.initial cfg readFile order g services) actions
    srv.taken <+: srv.sent ∧ srv.sent.Nodup ∧
      (srv.ended = false → srv.taken ++ srv.queue = srv.sent) ∧
      ∀ command ∈ srv.sent, ∃ conn request,
        srv.conns command.reply = some conn ∧ conn.uid = some 0 ∧
          conn.request = some request ∧
            request.command command.reply = some command := by
  intro srv
  have h : Consistent srv := consistent_run ..
  obtain ⟨lost, horder, hlost⟩ := h.order
  refine ⟨⟨srv.queue ++ lost, ?_⟩, h.nodup.of_map _, ?_, ?_⟩
  · rw [← List.append_assoc]
    exact horder
  · intro hgoing
    rw [← horder, hlost hgoing, List.append_nil]
  · intro command hin
    obtain ⟨conn, hclient⟩ := h.clients command hin
    obtain ⟨request, hrequest, hcommand⟩ := hclient.request
    exact ⟨conn, request, hclient.here, hclient.root, hrequest, hcommand⟩

/-- **A client hears the executor's answer to its own command.**  In every run
no sender has been used twice.  A connection that has asked for a start, a
restart or a reload and has been answered got the one answer sent for its
command; or it was told that the executor is disconnected, no answer was sent,
and the executor has returned or died, or has taken a later command for the
same service. -/
theorem client_hears_own_answer (i : ReplySender) (conn : Connection)
    (request : Request) (command : CtlCommand) (response : Response) :
    let srv := run (Server.step cfg fromStr)
      (Server.initial cfg readFile order g services) actions
    srv.conns i = some conn → conn.request = some request →
      request.command i = some command →
      conn.stage = .answered response →
      (srv.executor.replies.map Prod.fst).Nodup ∧
        ((∃ answer, (i, answer) ∈ srv.executor.replies ∧
            response = .ofAnswer answer) ∨
          (response = .disconnected ∧
            (∀ answer, (i, answer) ∉ srv.executor.replies) ∧
            (srv.ended = true ∨ srv.executor.phase.dead = true ∨
              ∃ later, [command, later].Sublist srv.taken ∧
                later.service = command.service))) := by
  intro srv hconn hrequest hcommand hstage
  have h : Consistent srv := consistent_run ..
  refine ⟨h.nodup_replies, ?_⟩
  have hreply : command.reply = i := Request.command_reply hcommand
  by_cases hsent : command ∈ srv.sent
  · obtain ⟨old, hold⟩ := h.clients command hsent
    have hhere := hold.here
    rw [hreply, hconn] at hhere
    cases hhere
    have hfate : Fate srv i (.answered response) := by
      rw [← hstage, ← hreply]
      exact hold.fate
    cases hfate with
    | told hanswer => exact .inl ⟨_, hanswer, rfl⟩
    | cutOff hnone hheld =>
        refine .inr ⟨rfl, hnone, ?_⟩
        cases hended : srv.ended with
        | true => exact .inl rfl
        | false =>
            -- the command is no longer in the channel, so it was taken
            obtain ⟨lost, horder, hlost⟩ := h.order
            rw [← horder, hlost hended, List.append_nil] at hsent
            have htaken : command ∈ srv.taken := by
              rcases List.mem_append.mp hsent with htaken | hqueue
              · exact htaken
              · refine absurd ⟨hended, .inl ?_⟩ hheld
                exact List.mem_map.mpr ⟨command, hqueue, hreply⟩
            rcases h.seenTo command htaken with hhand | hdead | hlater
            · rw [hreply] at hhand
              rcases List.mem_append.mp hhand with hused | hparked
              · obtain ⟨⟨_, answer⟩, hin, rfl⟩ := List.mem_map.mp hused
                exact absurd hin (hnone answer)
              · exact absurd ⟨hended, .inr hparked⟩ hheld
            · exact .inr (.inl hdead)
            · exact .inr (.inr hlater)
  · rcases h.unsent i conn request command hconn hrequest hcommand with
      hin | ⟨hcut, hended⟩
    · exact absurd hin hsent
    · rw [hstage] at hcut
      cases hcut
      refine .inr ⟨rfl, ?_, .inl hended⟩
      intro answer hin
      obtain ⟨sent, hin, hi⟩ := h.sent_of_reply hin
      rw [h.sent_unique hconn hrequest hcommand hin hi] at hin
      exact hsent hin

/-- Root hears that the restart has been done, and there is one answer. -/
theorem client_hears_own_answer_restart :
    ∃ g, ServiceGraph.build .asStored oneJob = .ok (.ok g) ∧
      let srv := run (Server.step .bare readRestart)
        (Server.initial .bare (fun _ => .error "") (.asStored _) g oneJob)
        restartSession
      srv.conns 0 = some ⟨some 0, some (.restart "job"), .answered .ok⟩ ∧
        (srv.executor.replies.map Prod.fst).Nodup ∧
        ((∃ answer, (0, answer) ∈ srv.executor.replies ∧
            .ok = Response.ofAnswer answer) ∨
          (Response.ok = .disconnected ∧
            (∀ answer, (0, answer) ∉ srv.executor.replies) ∧
            (srv.ended = true ∨ srv.executor.phase.dead = true ∨
              ∃ later, [.restart "job" 0, later].Sublist srv.taken ∧
                later.service = "job"))) :=
  ⟨_, rfl, by decide +kernel, client_hears_own_answer .bare readRestart
    (fun _ => .error "") (.asStored _) _ oneJob restartSession 0
    ⟨some 0, some (.restart "job"), .answered .ok⟩ (.restart "job")
    (.restart "job" 0) .ok (by decide +kernel) rfl rfl rfl⟩

/-- What has been sent stays sent. -/
theorem sent_subset (more : List Action) :
    let srv := run (Server.step cfg fromStr)
      (Server.initial cfg readFile order g services) actions
    ∀ command ∈ srv.sent,
      command ∈ (run (Server.step cfg fromStr) srv more).sent := by
  intro srv command hin
  refine run_keeps (fun s => command ∈ s.sent) (fun _ => True) ?_ more srv
    (fun _ _ => True.intro) hin
  intro action s _ hs
  cases step_cases cfg fromStr s action with
  | still hsame =>
      rw [hsame]
      exact hs
  | opened hfresh hnext =>
      rw [hnext]
      exact hs
  | served hconn heffect hnext =>
      rw [hnext]
      exact List.mem_append_left _ hs
  | executed hgoing hnext =>
      rw [hnext]
      exact hs
  | disconnected hfinished hnext =>
      rw [hnext]
      exact hs

/-- The answer to a command is sent while its client is waiting. -/
theorem waiting_of_sent {srv : Server} (h : Consistent srv) {w : World}
    (hnext : Consistent (srv.execute cfg w)) {command : CtlCommand}
    {answer : Except ReplyError Unit}
    (hsent : command ∈ srv.sent) (hheld : srv.Holds command.reply)
    (hreplies : (srv.execute cfg w).executor.replies =
      (command.reply, answer) :: srv.executor.replies) :
    ∃ conn, srv.conns command.reply = some conn ∧ conn.stage = .waiting := by
  obtain ⟨conn, hclient⟩ := h.clients command hsent
  refine ⟨conn, hclient.here, ?_⟩
  have hfate := hclient.fate
  revert hfate
  cases conn.stage with
  | waiting => exact fun _ => rfl
  | answered response =>
      intro hfate
      exfalso
      cases hfate with
      | told hanswer =>
          have hnodup := hnext.nodup_replies
          rw [hreplies, List.map_cons, List.nodup_cons] at hnodup
          exact hnodup.1 (List.mem_map.mpr ⟨_, hanswer, rfl⟩)
      | cutOff hnone hcut => exact hcut hheld
  | accepted => exact fun hfate => nomatch hfate
  | reading => exact fun hfate => nomatch hfate
  | found service pid => exact fun hfate => nomatch hfate
  | closed => exact fun hfate => nomatch hfate

/-- **`ok` means that it was done.**  If a connection that has asked for a
start, a restart or a reload is told `ok`, then there is a step of the executor,
taken while the client was waiting, in which it answered and either spawned a
process for the service named, or had just taken this very command, a reload
with nothing to do. -/
theorem ok_done_while_waiting (i : ReplySender) (conn : Connection)
    (request : Request) (command : CtlCommand) :
    let srv₀ := Server.initial cfg readFile order g services
    let srv := run (Server.step cfg fromStr) srv₀ actions
    srv.conns i = some conn → conn.request = some request →
      request.command i = some command → conn.stage = .answered .ok →
      ∃ before w after, actions = before ++ .execute w :: after ∧
        let mid := run (Server.step cfg fromStr) srv₀ before
        let w' := mid.world w
        (∃ old, mid.conns i = some old ∧ old.stage = .waiting) ∧
          (SpawnsFor command.service mid.executor
              (FlintInit.step cfg w' mid.executor) ∨
            (commandTaken w' mid.executor = [command] ∧
              NothingToReload cfg w' mid.executor command)) := by
  intro srv₀ srv hconn hrequest hcommand hstage
  have hend : (i, .ok ()) ∈ srv.executor.replies := by
    obtain ⟨_, hanswered⟩ := client_hears_own_answer cfg fromStr readFile order
      g services actions i conn request command .ok hconn hrequest hcommand
      hstage
    rcases hanswered with ⟨answer, hin, hok⟩ | ⟨hcut, _⟩
    · cases answer with
      | ok u => exact hin
      | error e => cases hok
    · cases hcut
  obtain ⟨before, action, after, hsplit, hbefore, hstep⟩ :=
    run_enters (fun s : Server => (i, .ok ()) ∈ s.executor.replies) actions
      srv₀ (fun h => nomatch h) hend
  have h : Consistent (run (Server.step cfg fromStr) srv₀ before) :=
    consistent_run ..
  generalize hmid : run (Server.step cfg fromStr) srv₀ before = mid at *
  -- who is answered in the run is the client of no other command
  have hsame : ∀ sent ∈ mid.sent, sent.reply = i → sent = command := by
    intro sent hin hreply
    have hsrv : srv = run (Server.step cfg fromStr) mid (action :: after) := by
      rw [← hmid, ← run_append, ← hsplit]
    have hlater : sent ∈ srv.sent := by
      rw [hsrv, ← hmid]
      exact sent_subset cfg fromStr readFile order g services before
        (action :: after) sent (hmid ▸ hin)
    exact Consistent.sent_unique (consistent_run ..) hconn hrequest hcommand
      hlater hreply
  obtain ⟨lost, horder, _⟩ := h.order
  cases step_cases cfg fromStr mid action with
  | still hstill =>
      rw [hstill] at hstep
      exact absurd hstep hbefore
  | opened hfresh hnext =>
      rw [hnext] at hstep
      exact absurd hstep hbefore
  | served hserved heffect hnext =>
      rw [hnext] at hstep
      exact absurd hstep hbefore
  | disconnected hfinished hnext =>
      rw [hnext] at hstep
      exact absurd hstep hbefore
  | @executed w hgoing hnext =>
      refine ⟨before, w, after, hsplit, ?_⟩
      dsimp only
      rw [hmid]
      have hcons : Consistent (mid.execute cfg w) := h.execute hgoing w
      rw [hnext] at hstep
      have hfrom : ∀ answer r, (mid.execute cfg w).executor.replies =
          (r, answer) :: mid.executor.replies → r = i ∧ answer = .ok () := by
        intro answer r hreplies
        rw [hreplies] at hstep
        rcases List.mem_cons.mp hstep with heq | hold
        · cases heq
          exact ⟨rfl, rfl⟩
        · exact absurd hold hbefore
      have hquiet : (mid.execute cfg w).executor.replies ≠
          mid.executor.replies := by
        intro heq
        rw [heq] at hstep
        exact hbefore hstep
      cases (FlintInit.step_cases cfg (mid.world w) mid.executor).office with
      | still htaken hreplies hparked => exact absurd hreplies hquiet
      | dropped htaken hreplies hparked hdead => exact absurd hreplies hquiet
      | parked htaken hreplies hparked => exact absurd hreplies hquiet
      | @used new answer htaken hreplies hparked hok =>
          obtain ⟨hi, rfl⟩ := hfrom answer new.reply hreplies
          have hqueue : new ∈ mid.queue := by
            rw [← commandTaken_world w, htaken]
            exact List.mem_append_left _ List.mem_cons_self
          have hsent : new ∈ mid.sent := by
            rw [← horder, List.append_assoc]
            exact List.mem_append_right _ (List.mem_append_left _ hqueue)
          have hheld : mid.Holds new.reply :=
            ⟨hgoing, .inl (List.mem_map_of_mem hqueue)⟩
          have hwaits := waiting_of_sent cfg h hcons hsent hheld hreplies
          rw [hi] at hwaits
          refine ⟨hwaits, ?_⟩
          rw [← hsame new hsent hi]
          exact (hok rfl).imp_right (fun hnothing => ⟨htaken, hnothing⟩)
      | @answered n r answer htaken hslot hreplies hparked hok =>
          obtain ⟨hi, rfl⟩ := hfrom answer r hreplies
          obtain ⟨asked, hasked, hreply, hservice⟩ := h.parkedFor n r hslot
          have hsent : asked ∈ mid.sent := by
            rw [← horder, List.append_assoc]
            exact List.mem_append_left _ hasked
          have hheld : mid.Holds asked.reply :=
            ⟨hgoing, .inr (hreply ▸ mem_values.mpr ⟨n, hslot⟩)⟩
          have hwaits := waiting_of_sent cfg h hcons hsent hheld
            (hreply ▸ hreplies)
          have hasked_i : asked.reply = i := hreply.trans hi
          rw [hasked_i] at hwaits
          refine ⟨hwaits, ?_⟩
          rw [← hsame asked hsent hasked_i, hservice]
          exact .inl (hok rfl)

/-- The step in which root's `ok` is earned is the one that spawns the job
again. -/
theorem ok_done_while_waiting_restart :
    ∃ g, ServiceGraph.build .asStored oneJob = .ok (.ok g) ∧
      let srv₀ := Server.initial .bare (fun _ => .error "") (.asStored _) g
        oneJob
      ∃ before w after, restartSession = before ++ .execute w :: after ∧
        let mid := run (Server.step .bare readRestart) srv₀ before
        let w' := mid.world w
        (∃ old, mid.conns 0 = some old ∧ old.stage = .waiting) ∧
          (SpawnsFor "job" mid.executor (step .bare w' mid.executor) ∨
            (commandTaken w' mid.executor = [.restart "job" 0] ∧
              NothingToReload .bare w' mid.executor (.restart "job" 0))) :=
  ⟨_, rfl, ok_done_while_waiting .bare readRestart (fun _ => .error "")
    (.asStored _) _ oneJob restartSession 0
    ⟨some 0, some (.restart "job"), .answered .ok⟩ (.restart "job")
    (.restart "job" 0) (by decide +kernel) rfl rfl rfl⟩

end Clients

end FlintInit.Ctl
