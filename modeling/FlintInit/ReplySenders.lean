import FlintInit.Replies
import FlintInit.SpawnBudget
import Mathlib.Data.List.Perm.Subperm

/-!
# What an answer says

A command's sender belongs to a channel with room for one message, and the
executor does not wait for the client to take it.  So a second message on the
same sender would stop process 1 for ever.

`Office` sorts the steps by what they do with senders and with their answers.
Whatever the commands are, the senders used and the senders parked are senders
that were received, each no more often than it was (`inHand_run`); and an `ok`
is sent only in the step that spawns the process it was asked for, or by a
reload that found nothing to do (`ok_answer`).
-/

namespace FlintInit

open Collections Runs

/-- A sender is received with its command. -/
theorem taken_eq (w : World) (s : State) :
    taken w s = (commandTaken w s).map CtlCommand.reply := by
  unfold taken commandTaken
  cases s.phase with
  | commands =>
      cases w.command with
      | none => rfl
      | some command => rfl
  | _ => rfl

/-- The step spawns a process for `n`, and the new process is tracked. -/
def SpawnsFor (n : String) (s s' : State) : Prop :=
  ∃ cause pid, s'.log = .spawned cause n pid :: s.log ∧
    s'.pidToName.lookup pid = some n

/-- The command is a reload that has no file to read, or finds in it the text
it has read before. -/
def NothingToReload (cfg : Config) (w : World) (s : State)
    (command : CtlCommand) : Prop :=
  ∃ n reply, command = .reload n reply ∧
    (reread cfg w s n = .noDir ∨ reread cfg w s n = .unchanged)

/-- What a step does with the senders of commands. -/
inductive Office (cfg : Config) (w : World) (s s' : State) : Prop
  | still (htaken : commandTaken w s = [])
      (hreplies : s'.replies = s.replies)
      (hparked : s'.restartReplies = s.restartReplies)
  /-- A panic answers nobody. -/
  | dropped {command : CtlCommand} (htaken : commandTaken w s = [command])
      (hreplies : s'.replies = s.replies)
      (hparked : s'.restartReplies = s.restartReplies)
      (hdead : s'.phase.dead = true)
  | used {command : CtlCommand} (answer : Except ReplyError Unit)
      (htaken : commandTaken w s = [command])
      (hreplies : s'.replies = (command.reply, answer) :: s.replies)
      (hparked : s'.restartReplies = s.restartReplies)
      (hok : answer = .ok () → SpawnsFor command.service s s' ∨
        NothingToReload cfg w s command)
  | parked {command : CtlCommand} (htaken : commandTaken w s = [command])
      (hreplies : s'.replies = s.replies)
      (hparked : s'.restartReplies =
        s.restartReplies.insert command.service command.reply)
  | answered {n : String} {r : ReplySender} (answer : Except ReplyError Unit)
      (htaken : commandTaken w s = [])
      (hslot : s.restartReplies.lookup n = some r)
      (hreplies : s'.replies = (r, answer) :: s.replies)
      (hparked : s'.restartReplies = s.restartReplies.erase n)
      (hok : answer = .ok () → SpawnsFor n s s')

/-! ## One step -/

section Step

variable {cfg : Config} {w : World} {s s' : State}

/-- A child that is tracked under a name has been spawned for it. -/
theorem spawnsFor_track (base : State) (cause : Cause) (n : String)
    (pid : Pid) (hlog : base.log = s.log) :
    SpawnsFor n s (base.track cause n pid) := by
  refine ⟨cause, pid, ?_, ?_⟩
  · change .spawned cause n pid :: base.log = _
    rw [hlog]
  · change (base.pidToName.insert pid n).lookup pid = some n
    rw [lookup_insert_eq, if_pos rfl]

/-- A spawn on demand answers `ok` only where it has spawned. -/
theorem spawnOnDemand_office {base : State} {command : CtlCommand}
    (htaken : commandTaken w s = [command]) (hlog : base.log = s.log)
    (hreplies : base.replies = s.replies)
    (hparked : base.restartReplies = s.restartReplies) :
    Office cfg w s
      (spawnOnDemand w base command.service command.reply) := by
  unfold spawnOnDemand
  split
  · refine .used (.error (.unknownService command.service)) htaken ?_
      hparked nofun
    rw [← hreplies]
    rfl
  · split
    · exact .dropped htaken hreplies hparked rfl
    · rename_i e _
      refine .used (.error (.spawnFailed e)) htaken ?_ hparked nofun
      rw [← hreplies]
      rfl
    · rename_i pid _
      refine .used (.ok ()) htaken ?_ hparked ?_
      · rw [← hreplies]
        rfl
      · intro _
        exact .inl (spawnsFor_track base .command command.service pid hlog)

/-- A restart that is promised parks its sender. -/
theorem requestRestart_office {base : State} {command : CtlCommand}
    (htaken : commandTaken w s = [command])
    (hreplies : base.replies = s.replies)
    (hparked : base.restartReplies = s.restartReplies) :
    Office cfg w s
      (requestRestart w base command.service command.reply) := by
  obtain ⟨kills, heq⟩ :=
    requestRestart_eq w base command.service command.reply
  rw [heq]
  refine .parked htaken hreplies ?_
  rw [← hparked]

/-- **The sender of a command** is used at once or parked under the name of
its service. -/
theorem runCommand_office (command : CtlCommand)
    (htaken : commandTaken w s = [command]) :
    Office cfg w s (runCommand cfg w s command) := by
  cases command with
  | start n reply =>
      unfold runCommand startCommand
      dsimp only
      split
      · exact .used _ htaken rfl rfl nofun
      · exact .used _ htaken rfl rfl nofun
      · exact .used _ htaken rfl rfl nofun
      · exact spawnOnDemand_office htaken rfl rfl rfl
  | restart n reply =>
      unfold runCommand restartCommand
      dsimp only
      split
      · exact .used _ htaken rfl rfl nofun
      · exact requestRestart_office htaken rfl rfl
      · exact requestRestart_office htaken rfl rfl
      · exact spawnOnDemand_office htaken rfl rfl rfl
  | reload n reply =>
      obtain ⟨kills, hkills⟩ := hangUp_eq w s n
      unfold runCommand reloadCommand
      dsimp only
      rw [hkills]
      have hsame : reread cfg w { s with kills := kills } n =
          reread cfg w s n := rfl
      rw [hsame]
      cases hread : reread cfg w s n with
      | noDir =>
          refine .used (.ok ()) htaken rfl rfl ?_
          exact fun _ => .inr ⟨n, reply, rfl, .inl hread⟩
      | unreadable path e => exact .used _ htaken rfl rfl nofun
      | unchanged =>
          refine .used (.ok ()) htaken rfl rfl ?_
          exact fun _ => .inr ⟨n, reply, rfl, .inr hread⟩
      | unparsable e => exact .used _ htaken rfl rfl nofun
      | changed raw svc =>
          dsimp only
          split
          · exact requestRestart_office htaken rfl rfl
          · exact spawnOnDemand_office htaken rfl rfl rfl

/-- The sender parked for a restart is used for its answer. -/
theorem office_answerRestart {base : State} {n : String}
    (answer : Except ReplyError Unit) (htaken : commandTaken w s = [])
    (hreplies : base.replies = s.replies)
    (hparked : base.restartReplies = s.restartReplies)
    (hok : answer = .ok () → ∀ replies restartReplies,
      SpawnsFor n s { base with
        replies := replies
        restartReplies := restartReplies }) :
    Office cfg w s (answerRestart base n answer) := by
  unfold answerRestart
  split
  · rename_i r hslot
    rw [hparked] at hslot
    refine .answered answer htaken hslot ?_ ?_ (fun h => hok h _ _)
    · rw [← hreplies]
      rfl
    · rw [← hparked]
  · exact .still htaken hreplies hparked

/-- What an office looks at. -/
theorem Office.congr {t : State} (h : Office cfg w s s')
    (hreplies : t.replies = s'.replies)
    (hparked : t.restartReplies = s'.restartReplies)
    (hlog : t.log = s'.log) (hlive : t.pidToName = s'.pidToName)
    (hphase : t.phase = s'.phase) : Office cfg w s t := by
  have hspawns : ∀ n, SpawnsFor n s s' → SpawnsFor n s t := by
    rintro n ⟨cause, pid, hnew, hpid⟩
    exact ⟨cause, pid, hlog.trans hnew, by rw [hlive]; exact hpid⟩
  cases h with
  | still htaken hr hp =>
      exact .still htaken (hreplies.trans hr) (hparked.trans hp)
  | dropped htaken hr hp hdead =>
      exact .dropped htaken (hreplies.trans hr) (hparked.trans hp)
        (hphase ▸ hdead)
  | used answer htaken hr hp hok =>
      refine .used answer htaken (hreplies.trans hr) (hparked.trans hp) ?_
      intro ha
      exact (hok ha).imp (hspawns _) id
  | parked htaken hr hp =>
      exact .parked htaken (hreplies.trans hr) (hparked.trans hp)
  | answered answer htaken hslot hr hp hok =>
      exact .answered answer htaken hslot (hreplies.trans hr)
        (hparked.trans hp) (fun ha => hspawns _ (hok ha))

/-- A spawn that nobody asked for answers nobody. -/
theorem spawnOrReturn_office {base : State} (cause : Cause) (n : String)
    (svc : ServiceDef) (htaken : commandTaken w s = [])
    (hreplies : base.replies = s.replies)
    (hparked : base.restartReplies = s.restartReplies) :
    Office cfg w s (spawnOrReturn w base cause n svc) := by
  unfold spawnOrReturn
  split
  · exact .still htaken hreplies hparked
  · exact .still htaken hreplies hparked
  · exact .still htaken hreplies hparked

/-- Commands are taken in their own phase only. -/
theorem commandTaken_of_ne (hphase : s.phase ≠ .commands) :
    commandTaken w s = [] := by
  unfold commandTaken
  split
  · rename_i heq _
    exact absurd heq hphase
  · rfl

/-- **Every step** uses or parks a sender in one of these ways. Only commands
bring one in, and only the end of a process answers one that is parked. -/
theorem StepCase.office (hcase : StepCase cfg w s s') :
    Office cfg w s s' := by
  cases hcase with
  | still phase marker hdead hpop hended hcommand =>
      refine .still ?_ rfl rfl
      unfold commandTaken
      split
      · rename_i heq hsome
        rw [hcommand heq] at hsome
        cases hsome
      · rfl
  | @command command hphase hcommand =>
      exact runCommand_office command (commandTaken_of hphase hcommand)
  | @ready n phase hn hdead =>
      have htaken : commandTaken w s = [] := by
        refine commandTaken_of_ne ?_
        intro hphase
        simp only [readyMessage, hphase] at hn
        cases hn
      unfold reportReady
      split
      · exact .still htaken rfl rfl
      · exact .still htaken rfl rfl
  | @pop n rest hphase hqueue =>
      have htaken : commandTaken w s = [] :=
        commandTaken_of_ne (by simp [hphase])
      rcases launchService_cases w { s with toStart := rest } n with
        ⟨_, heq⟩ | ⟨_, _, heq⟩ | ⟨svc, _, _, heq⟩
      · rw [heq]
        exact .still htaken rfl rfl
      · rw [heq]
        exact .still htaken rfl rfl
      · obtain ⟨removed, hstale⟩ := removeStale_eq
          (({ s with toStart := rest } : State).note (.popped n)) svc
        rw [heq, hstale]
        exact spawnOrReturn_office .launch n svc htaken rfl rfl
  | @manual pid rest n ending hphase hend hlive hpending =>
      have htaken : commandTaken w s = [] :=
        commandTaken_of_ne (by simp [hphase])
      unfold manualRestart
      split
      · exact .still htaken rfl rfl
      · split
        · exact .still htaken rfl rfl
        · rename_i new _
          refine office_answerRestart (.ok ()) htaken rfl rfl ?_
          intro _ replies restartReplies
          exact spawnsFor_track
            { s.reapChild pid rest with
              pendingRestart := s.pendingRestart.erase n
              replies := replies
              restartReplies := restartReplies } .manualRestart n new rfl
        · rename_i e _
          have hanswered : Office cfg w s (answerRestart
              { s.reapChild pid rest with
                pendingRestart := s.pendingRestart.erase n } n
              (.error (.spawnFailed e))) :=
            office_answerRestart _ htaken rfl rfl (fun h => by cases h)
          exact hanswered.congr rfl rfl rfl rfl rfl
  | @auto pid rest n ending hphase hend hlive hpending hdue =>
      have htaken : commandTaken w s = [] :=
        commandTaken_of_ne (by simp [hphase])
      unfold autoRestart
      split
      · exact .still htaken rfl rfl
      · exact spawnOrReturn_office .autoRestart n _ htaken rfl rfl
  | @finish pid rest n ending hphase hend hlive hpending hdue =>
      obtain ⟨st, new, graph, blocked, reported, toStart, -, -, heq⟩ :=
        finishService_eq
          { s.reapChild pid rest with
            restartCounts := entry s.restartCounts n 0 id } n ending
      rw [heq]
      exact .still (commandTaken_of_ne (by simp [hphase])) rfl rfl
  | lost hphase hwait =>
      exact .still (commandTaken_of_ne (by simp [hphase])) rfl rfl
  | refused hphase hwait =>
      exact .still (commandTaken_of_ne (by simp [hphase])) rfl rfl

end Step

/-! ## Senders over a run -/

/-- The senders used and the senders parked. -/
def inHand (s : State) : List ReplySender :=
  s.replies.map Prod.fst ++ values s.restartReplies

/-- A key that is inserted adds one value at most. -/
theorem values_insert_subperm (t : Table String ReplySender) (n : String)
    (r : ReplySender) : (values (t.insert n r)).Subperm (r :: values t) := by
  unfold values
  rw [AList.entries_insert, List.map_cons]
  refine List.subperm_cons r |>.mpr ?_
  exact ((List.kerase_sublist n t.entries).map _).subperm

/-- No sender is used or parked that was not received. A sender moves from the
commands to the replies or to the parked ones, and from these to the replies,
and none is copied on the way. -/
theorem Office.inHand {cfg : Config} {w : World} {s s' : State}
    {acc : List ReplySender} (h : Office cfg w s s')
    (hacc : (inHand s).Subperm acc) :
    (FlintInit.inHand s').Subperm (acc ++ taken w s) := by
  have hall : ∀ r, (r :: FlintInit.inHand s).Subperm (acc ++ [r]) := by
    intro r
    refine ((List.subperm_cons r).mpr hacc).trans ?_
    exact (List.perm_append_singleton r acc).symm.subperm
  unfold FlintInit.inHand at hall hacc ⊢
  rw [taken_eq]
  cases h with
  | still htaken hreplies hparked =>
      rw [htaken, hreplies, hparked]
      exact hacc.trans (List.sublist_append_left acc []).subperm
  | dropped htaken hreplies hparked hdead =>
      rw [hreplies, hparked]
      exact hacc.trans (List.sublist_append_left acc _).subperm
  | @used command answer htaken hreplies hparked hok =>
      rw [htaken, hreplies, hparked]
      exact hall command.reply
  | @parked command htaken hreplies hparked =>
      rw [htaken, hreplies, hparked]
      refine List.Subperm.trans ?_ (hall command.reply)
      refine ((List.subperm_append_left _).mpr
        (values_insert_subperm s.restartReplies _ _)).trans ?_
      exact List.perm_middle.subperm
  | @answered n r answer htaken hslot hreplies hparked hok =>
      rw [htaken, hreplies, hparked, List.map_nil, List.append_nil]
      refine List.Subperm.trans ?_ hacc
      rw [List.map_cons, List.cons_append]
      exact (List.perm_middle.symm.trans
        ((values_erase hslot).symm.append_left _)).subperm

/-- **No sender is used twice.**  In every run, whatever the commands are, the
senders used and the senders parked are senders received, each no more often
than it was received. -/
theorem inHand_run (cfg : Config)
    (readFile : String → Except String String) (order : IterOrder String)
    (g : ServiceGraph) (services : List ServiceDef) (ws : List World) :
    (inHand (runWithMarker cfg readFile order g services ws)).Subperm
      (received cfg (initial cfg readFile order g services) ws) := by
  refine collect_invariant (fun acc s => (inHand s).Subperm acc) ?_ ws _ []
    (Meets.trivial _ ws) (List.Subperm.refl _)
  intro w s acc _ hacc
  exact (step_cases cfg w s).office.inHand hacc

/-- Whoever is parked has been received for the service it is parked under. -/
def ParkedFor (acc : List CtlCommand) (s : State) : Prop :=
  ∀ n r, s.restartReplies.lookup n = some r →
    ∃ command ∈ acc, command.reply = r ∧ command.service = n

/-- A step parks a sender under the service of its command, and moves no other.
-/
theorem Office.parkedFor {cfg : Config} {w : World} {s s' : State}
    {acc : List CtlCommand} (h : Office cfg w s s')
    (hacc : ParkedFor acc s) : ParkedFor (acc ++ commandTaken w s) s' := by
  have hkept : ∀ n r, s.restartReplies.lookup n = some r →
      ∃ command ∈ acc ++ commandTaken w s,
        command.reply = r ∧ command.service = n := by
    intro n r hr
    obtain ⟨command, hin, hcommand⟩ := hacc n r hr
    exact ⟨command, List.mem_append_left _ hin, hcommand⟩
  intro n r hr
  cases h with
  | still htaken hreplies hparked =>
      rw [hparked] at hr
      exact hkept n r hr
  | dropped htaken hreplies hparked hdead =>
      rw [hparked] at hr
      exact hkept n r hr
  | used answer htaken hreplies hparked hok =>
      rw [hparked] at hr
      exact hkept n r hr
  | @parked command htaken hreplies hparked =>
      rw [hparked, lookup_insert_eq] at hr
      split at hr
      · rename_i hn
        cases hr
        refine ⟨command, ?_, rfl, hn.symm⟩
        rw [htaken]
        exact List.mem_append_right _ List.mem_cons_self
      · exact hkept n r hr
  | @answered m r' answer htaken hslot hreplies hparked hok =>
      rw [hparked, lookup_erase_eq] at hr
      split at hr
      · cases hr
      · exact hkept n r hr

/-- Who is answered was waiting, as the command just received or parked. -/
theorem Office.answers {cfg : Config} {w : World} {s s' : State}
    (h : Office cfg w s s') : ∃ new, s'.replies = new ++ s.replies ∧
      ∀ p ∈ new, p.1 ∈ taken w s ∨ p.1 ∈ values s.restartReplies := by
  rw [taken_eq]
  cases h with
  | still htaken hreplies hparked => exact ⟨[], hreplies, by simp⟩
  | dropped htaken hreplies hparked hdead => exact ⟨[], hreplies, by simp⟩
  | parked htaken hreplies hparked => exact ⟨[], hreplies, by simp⟩
  | @used command answer htaken hreplies hparked hok =>
      exact ⟨[(command.reply, answer)], hreplies, by simp [htaken]⟩
  | @answered n r answer htaken hslot hreplies hparked hok =>
      refine ⟨[(r, answer)], hreplies, ?_⟩
      intro p hp
      cases List.mem_singleton.mp hp
      exact .inr (mem_values.mpr ⟨n, hslot⟩)

/-- Who is parked was parked before or has just been received. A sender that is
answered leaves the table, and the others keep their places in it. -/
theorem Office.parks {cfg : Config} {w : World} {s s' : State}
    (h : Office cfg w s s') {r : ReplySender}
    (hr : r ∈ values s'.restartReplies) :
    r ∈ taken w s ∨ r ∈ values s.restartReplies := by
  obtain ⟨n, hn⟩ := mem_values.mp hr
  rw [taken_eq]
  cases h with
  | still htaken hreplies hparked =>
      rw [hparked] at hr
      exact .inr hr
  | dropped htaken hreplies hparked hdead =>
      rw [hparked] at hr
      exact .inr hr
  | used answer htaken hreplies hparked hok =>
      rw [hparked] at hr
      exact .inr hr
  | @parked command htaken hreplies hparked =>
      rw [hparked, lookup_insert_eq] at hn
      split at hn
      · cases hn
        exact .inl (by simp [htaken])
      · exact .inr (mem_values.mpr ⟨n, hn⟩)
  | @answered m r' answer htaken hslot hreplies hparked hok =>
      rw [hparked, lookup_erase_eq] at hn
      split at hn
      · cases hn
      · exact .inr (mem_values.mpr ⟨n, hn⟩)

/-- What has become of a command received: its sender has been used, it is
parked, an error or a panic has ended the loop, or a later command for the same
service has taken its place. -/
def SeenTo (acc : List CtlCommand) (s : State) (command : CtlCommand) :
    Prop :=
  command.reply ∈ inHand s ∨ s.phase.dead = true ∨
    ∃ later, [command, later].Sublist acc ∧ later.service = command.service

/-- A command that was seen to stays so: its sender leaves its slot by being
used, or gives way to a later command for the same service. -/
theorem Office.seenTo {cfg : Config} {w : World} {s s' : State}
    {acc : List CtlCommand} (h : Office cfg w s s')
    (hdead : s.phase.dead = true → s'.phase.dead = true)
    (hnodup : (acc.map CtlCommand.reply).Nodup) (hparked : ParkedFor acc s)
    (hacc : ∀ command ∈ acc, SeenTo acc s command) :
    ∀ command ∈ acc ++ commandTaken w s,
      SeenTo (acc ++ commandTaken w s) s' command := by
  -- a sender in hand stays in hand unless another one takes its place
  have hkept : ∀ command ∈ acc, (command.reply ∈ FlintInit.inHand s →
      SeenTo (acc ++ commandTaken w s) s' command) →
        SeenTo (acc ++ commandTaken w s) s' command := by
    intro command hin hhand
    rcases hacc command hin with hold | hold | ⟨later, hlater, hservice⟩
    · exact hhand hold
    · exact .inr (.inl (hdead hold))
    · refine .inr (.inr ⟨later, ?_, hservice⟩)
      exact hlater.trans (List.sublist_append_left acc _)
  unfold FlintInit.inHand at hkept
  intro command hin
  rcases List.mem_append.mp hin with hin | hnew
  · refine hkept command hin ?_
    intro hhand
    unfold SeenTo FlintInit.inHand
    cases h with
    | still htaken hreplies hsame =>
        rw [hreplies, hsame]
        exact .inl hhand
    | dropped htaken hreplies hsame hdead => exact .inr (.inl hdead)
    | used answer htaken hreplies hsame hok =>
        rw [hreplies, hsame]
        exact .inl (List.mem_cons_of_mem _ hhand)
    | @parked new htaken hreplies hinsert =>
        rw [hreplies, hinsert]
        rcases List.mem_append.mp hhand with hused | hvalue
        · exact .inl (List.mem_append_left _ hused)
        · obtain ⟨n, hn⟩ := mem_values.mp hvalue
          by_cases hsame : n = new.service
          · -- it was parked under the name of the new command's service
            obtain ⟨twin, htwin, hreply, hservice⟩ := hparked n _ hn
            have heq : twin = command :=
              List.inj_on_of_nodup_map hnodup htwin hin hreply
            refine .inr (.inr ⟨new, ?_, ?_⟩)
            · rw [htaken]
              exact (List.singleton_sublist.mpr hin).append
                (List.Sublist.refl [new])
            · rw [← heq, hservice, hsame]
          · refine .inl (List.mem_append_right _ (mem_values.mpr ⟨n, ?_⟩))
            rw [lookup_insert_eq, if_neg hsame]
            exact hn
    | @answered m r answer htaken hslot hreplies herase hok =>
        rw [hreplies, herase]
        rcases List.mem_append.mp hhand with hused | hvalue
        · exact .inl (List.mem_append_left _ (List.mem_cons_of_mem _ hused))
        · obtain ⟨n, hn⟩ := mem_values.mp hvalue
          by_cases hsame : n = m
          · rw [hsame, hslot] at hn
            cases hn
            exact .inl (List.mem_append_left _ List.mem_cons_self)
          · refine .inl (List.mem_append_right _ (mem_values.mpr ⟨n, ?_⟩))
            rw [lookup_erase_eq, if_neg hsame]
            exact hn
  · unfold SeenTo FlintInit.inHand
    cases h with
    | still htaken => simp [htaken] at hnew
    | answered answer htaken => simp [htaken] at hnew
    | dropped htaken hreplies hsame hdead => exact .inr (.inl hdead)
    | @used new answer htaken hreplies hsame hok =>
        rw [htaken] at hnew
        cases List.mem_singleton.mp hnew
        rw [hreplies]
        exact .inl (List.mem_append_left _ List.mem_cons_self)
    | @parked new htaken hreplies hinsert =>
        rw [htaken] at hnew
        cases List.mem_singleton.mp hnew
        rw [hinsert]
        refine .inl (List.mem_append_right _
          (mem_values.mpr ⟨command.service, ?_⟩))
        rw [lookup_insert_eq, if_pos rfl]

/-- **An `ok` is kept.**  In every run, a step that answers `ok` does so to a
command received, and spawns a process for the service it named in that very
step; or it has just received a reload that had nothing to do. -/
theorem ok_answer (cfg : Config)
    (readFile : String → Except String String) (order : IterOrder String)
    (g : ServiceGraph) (services : List ServiceDef) (ws : List World)
    (w : World) (r : ReplySender) :
    let s := runWithMarker cfg readFile order g services ws
    let s' := step cfg w s
    s'.replies = (r, .ok ()) :: s.replies →
      ∃ command ∈ commandsTaken cfg
          (initial cfg readFile order g services) ws ++ commandTaken w s,
        command.reply = r ∧ (SpawnsFor command.service s s' ∨
          (commandTaken w s = [command] ∧
            NothingToReload cfg w s command)) := by
  intro s s' hsent
  have hparked : ParkedFor (commandsTaken cfg
      (initial cfg readFile order g services) ws) s := by
    refine collect_invariant ParkedFor ?_ ws _ [] (Meets.trivial _ ws) ?_
    · intro w s acc _ hacc
      exact (step_cases cfg w s).office.parkedFor hacc
    · exact fun _ _ h => nomatch h
  have hquiet : s'.replies ≠ s.replies := by
    rw [hsent]
    exact List.cons_ne_self _ _
  cases (step_cases cfg w s).office with
  | still htaken hreplies hp => exact absurd hreplies hquiet
  | dropped htaken hreplies hp hdead => exact absurd hreplies hquiet
  | parked htaken hreplies hp => exact absurd hreplies hquiet
  | @used command answer htaken hreplies hp hok =>
      obtain ⟨hr, ha⟩ := Prod.mk.inj
        (List.cons.inj (hreplies.symm.trans hsent)).1
      refine ⟨command, ?_, hr, (hok ha).imp_right (fun h => ⟨htaken, h⟩)⟩
      rw [htaken]
      exact List.mem_append_right _ List.mem_cons_self
  | @answered n r' answer htaken hslot hreplies hp hok =>
      obtain ⟨hr, ha⟩ := Prod.mk.inj
        (List.cons.inj (hreplies.symm.trans hsent)).1
      obtain ⟨command, hin, hreply, hservice⟩ := hparked n r' hslot
      refine ⟨command, List.mem_append_left _ hin, hreply.trans hr, ?_⟩
      rw [hservice]
      exact .inl (hok ha)

/-- The restart of a running job is answered when its process has ended. -/
theorem ok_answer_restart :
    ∃ g, ServiceGraph.build .asStored oneJob = .ok (.ok g) ∧
      let w := { World.idle with waitpid := .signaled 15 }
      let s₀ := initial .bare (fun _ => .error "") (.asStored _) g oneJob
      let s := runWithMarker .bare (fun _ => .error "") (.asStored _) g
        oneJob restartedJob.dropLast
      let s' := step .bare w s
      s'.replies = (0, .ok ()) :: s.replies ∧
        ∃ command ∈ commandsTaken .bare s₀ restartedJob.dropLast ++
            commandTaken w s,
          command.reply = 0 ∧ (SpawnsFor command.service s s' ∨
            (commandTaken w s = [command] ∧
              NothingToReload .bare w s command)) :=
  ⟨_, rfl, by decide +kernel, ok_answer .bare (fun _ => .error "")
    (.asStored _) _ oneJob restartedJob.dropLast _ 0 (by decide +kernel)⟩

end FlintInit
