import FlintInit.StatusMaps

/-!
# Answers to commands

Every command brings the sending end on which its client waits.  It is used at
once, or parked under the service's name until the old process has ended.  The
senders received are the senders used and the senders parked, each as often as
it was received, as long as no parked sender is overwritten and none is parked
for a service without a process.
-/

namespace FlintInit

open Collections Runs

/-- The sender that comes with the command of this step. -/
def taken (w : World) (s : State) : List ReplySender :=
  match s.phase, w.command with
  | .commands, some command => [command.reply]
  | _, _ => []

/-- The senders received in the course of a run. -/
def received (cfg : Config) (s : State) (ws : List World) :
    List ReplySender :=
  collect (step cfg) taken s ws

/-- A sender is parked only where it has a slot of its own and a process whose
end will free it, and no such process is lost. -/
structure ParksFree (cfg : Config) (w : World) (s : State) : Prop where
  slot : ∀ n ∈ asked cfg w s, s.restartReplies.lookup n = none
  process : ∀ n ∈ asked cfg w s,
    ∃ pid ∈ s.pidToName.keys, s.pidToName.lookup pid = some n
  lost : ∀ pid ∈ lostChild w s, ∀ n ∈ s.pidToName.lookup pid,
    n ∈ s.restartReplies.keys →
      ∃ q ∈ s.pidToName.keys, q ≠ pid ∧ s.pidToName.lookup q = some n

instance (cfg : Config) (w : World) (s : State) :
    Decidable (ParksFree cfg w s) :=
  decidable_of_iff
    ((∀ n ∈ asked cfg w s, s.restartReplies.lookup n = none) ∧
      (∀ n ∈ asked cfg w s,
        ∃ pid ∈ s.pidToName.keys, s.pidToName.lookup pid = some n) ∧
      ∀ pid ∈ lostChild w s, ∀ n ∈ s.pidToName.lookup pid,
        n ∈ s.restartReplies.keys →
          ∃ q ∈ s.pidToName.keys, q ≠ pid ∧ s.pidToName.lookup q = some n)
    ⟨fun ⟨h₁, h₂, h₃⟩ => ⟨h₁, h₂, h₃⟩,
      fun h => ⟨h.slot, h.process, h.lost⟩⟩

/-- The senders received so far are those used and those parked, and whoever
is parked waits for a process. -/
structure Accounted (received : List ReplySender) (s : State) : Prop where
  senders : received.Perm
    (s.replies.map Prod.fst ++ values s.restartReplies)
  pending : ∀ n r, s.restartReplies.lookup n = some r →
    n ∈ s.pendingRestart
  process : ∀ n r, s.restartReplies.lookup n = some r →
    ∃ pid, s.pidToName.lookup pid = some n

/-! ## The places that send or park -/

namespace Accounted

variable {acc : List ReplySender} {s s' : State} {n : String}

/-- Nothing is sent or parked, and no process that is waited for is lost. -/
theorem congr (h : Accounted acc s) (hreplies : s'.replies = s.replies)
    (hparked : s'.restartReplies = s.restartReplies)
    (hpending : s'.pendingRestart = s.pendingRestart)
    (hlive : ∀ m pid, s.pidToName.lookup pid = some m →
      (∃ r, s.restartReplies.lookup m = some r) →
        ∃ q, s'.pidToName.lookup q = some m) : Accounted acc s' := by
  refine ⟨?_, ?_, ?_⟩
  · rw [hreplies, hparked]
    exact h.senders
  · rw [hparked, hpending]
    exact h.pending
  · intro m r hr
    rw [hparked] at hr
    obtain ⟨pid, hpid⟩ := h.process m r hr
    exact hlive m pid hpid ⟨r, hr⟩

/-- A sender is received and used at once. -/
theorem answered (h : Accounted acc s) {r : ReplySender}
    {answer : Except ReplyError Unit}
    (hreplies : s'.replies = (r, answer) :: s.replies)
    (hparked : s'.restartReplies = s.restartReplies)
    (hpending : s'.pendingRestart = s.pendingRestart)
    (hlive : ∀ m pid, s.pidToName.lookup pid = some m →
      s'.pidToName.lookup pid = some m) : Accounted (acc ++ [r]) s' := by
  refine ⟨?_, ?_, ?_⟩
  · rw [hreplies, hparked, List.map_cons, List.cons_append]
    refine (List.perm_append_singleton r acc).trans ?_
    exact h.senders.cons r
  · rw [hparked, hpending]
    exact h.pending
  · intro m r hr
    rw [hparked] at hr
    obtain ⟨pid, hpid⟩ := h.process m r hr
    exact ⟨pid, hlive m pid hpid⟩

/-- A sender is received and parked for a service that has a process. It is the
only one parked for it, since the place was free. -/
theorem park (h : Accounted acc s) {r : ReplySender}
    (hslot : s.restartReplies.lookup n = none)
    (hprocess : ∃ pid, s.pidToName.lookup pid = some n)
    (hreplies : s'.replies = s.replies)
    (hparked : s'.restartReplies = s.restartReplies.insert n r)
    (hpending : s'.pendingRestart = insert n s.pendingRestart)
    (hlive : s'.pidToName = s.pidToName) : Accounted (acc ++ [r]) s' := by
  refine ⟨?_, ?_, ?_⟩
  · rw [hreplies, hparked, values_insert hslot]
    refine (List.perm_append_singleton r acc).trans ?_
    exact (h.senders.cons r).trans List.perm_middle.symm
  · intro m r' hr'
    rw [hpending]
    rw [hparked, lookup_insert_eq] at hr'
    by_cases hm : m = n
    · rw [hm]
      exact Finset.mem_insert_self n _
    · rw [if_neg hm] at hr'
      exact Finset.mem_insert_of_mem (h.pending m r' hr')
  · intro m r' hr'
    rw [hlive]
    rw [hparked, lookup_insert_eq] at hr'
    by_cases hm : m = n
    · rw [hm]
      exact hprocess
    · rw [if_neg hm] at hr'
      exact h.process m r' hr'

/-- The process of `n` has ended, and the sender parked for it is used. What is
parked for other services stays, as their processes do; if none was parked for
`n`, no answer is given. -/
theorem answerRestart (h : Accounted acc s) {base : State}
    (answer : Except ReplyError Unit) (hreplies : base.replies = s.replies)
    (hparked : base.restartReplies = s.restartReplies)
    (hpending : base.pendingRestart = s.pendingRestart.erase n)
    (hlive : ∀ m pid, m ≠ n → s.pidToName.lookup pid = some m →
      base.pidToName.lookup pid = some m) :
    Accounted acc (answerRestart base n answer) := by
  have hothers : ∀ m r, m ≠ n → s.restartReplies.lookup m = some r →
      m ∈ base.pendingRestart ∧
        ∃ pid, base.pidToName.lookup pid = some m := by
    intro m r hm hr
    obtain ⟨pid, hpid⟩ := h.process m r hr
    rw [hpending]
    exact ⟨Finset.mem_erase.mpr ⟨hm, h.pending m r hr⟩, pid,
      hlive m pid hm hpid⟩
  unfold FlintInit.answerRestart
  rw [hparked]
  cases hslot : s.restartReplies.lookup n with
  | none =>
      have hne : ∀ m r, s.restartReplies.lookup m = some r → m ≠ n := by
        intro m r hr hm
        rw [hm, hslot] at hr
        cases hr
      dsimp only
      refine ⟨?_, ?_, ?_⟩
      · rw [hreplies, hparked]
        exact h.senders
      · intro m r hr
        rw [hparked] at hr
        exact (hothers m r (hne m r hr) hr).1
      · intro m r hr
        rw [hparked] at hr
        exact (hothers m r (hne m r hr) hr).2
  | some r =>
      dsimp only
      have hrest : ∀ m r', (s.restartReplies.erase n).lookup m = some r' →
          m ≠ n ∧ s.restartReplies.lookup m = some r' := by
        intro m r' hr'
        rw [lookup_erase_eq] at hr'
        by_cases hm : m = n
        · rw [if_pos hm] at hr'
          cases hr'
        · rw [if_neg hm] at hr'
          exact ⟨hm, hr'⟩
      refine ⟨?_, ?_, ?_⟩
      · change acc.Perm (((r, answer) :: base.replies).map Prod.fst ++
          values (s.restartReplies.erase n))
        rw [hreplies, List.map_cons, List.cons_append]
        refine h.senders.trans ?_
        exact ((values_erase hslot).append_left _).trans List.perm_middle
      · intro m r' hr'
        obtain ⟨hm, hold⟩ := hrest m r' hr'
        exact (hothers m r' hm hold).1
      · intro m r' hr'
        obtain ⟨hm, hold⟩ := hrest m r' hr'
        exact (hothers m r' hm hold).2

end Accounted

/-! ## One step -/

/-- The account is right, unless an error or a panic has ended the loop. -/
def Settles (acc : List ReplySender) (s : State) : Prop :=
  s.phase.dead = true ∨ Accounted acc s

/-- A new child takes no process from anyone. -/
private theorem live_track {w : World} {s : State} {svc : ServiceDef}
    {pid : Pid} (hspawn : spawnService w s.pidToName.keys svc = .ok pid)
    (cause : Cause) (n m : String) (p : Pid)
    (hp : s.pidToName.lookup p = some m) :
    (s.track cause n pid).pidToName.lookup p = some m := by
  have hfresh : s.pidToName.lookup pid = none := spawnService_fresh hspawn
  have hne : p ≠ pid := by
    intro heq
    rw [heq, hfresh] at hp
    cases hp
  change (s.pidToName.insert pid n).lookup p = some m
  rw [lookup_insert_eq, if_neg hne]
  exact hp

/-- A command is answered at once, or parked in a slot that is free under a
service with a process, so the account goes on. -/
private theorem CommandCase.settles {cfg : Config} {w : World}
    {s s' : State} {command : CtlCommand} {acc : List ReplySender}
    (hcase : CommandCase cfg w s command s')
    (hslot : ∀ n ∈ asks cfg w s command, s.restartReplies.lookup n = none)
    (hprocess : ∀ n ∈ asks cfg w s command,
      ∃ pid ∈ s.pidToName.keys, s.pidToName.lookup pid = some n)
    (h : Accounted acc s) : Settles (acc ++ [command.reply]) s' := by
  have hbase : ∀ {base : State}, Prepared cfg w s command base →
      base.replies = s.replies ∧
        base.restartReplies = s.restartReplies ∧
        base.pendingRestart = s.pendingRestart ∧
        base.pidToName = s.pidToName := by
    intro base hprep
    cases hprep <;> exact ⟨rfl, rfl, rfl, rfl⟩
  cases hcase with
  | answered => exact .inr (h.answered rfl rfl rfl (fun _ _ hp => hp))
  | @asked base hprep hask =>
      obtain ⟨hreplies, hparked, hpending, hlive⟩ := hbase hprep
      obtain ⟨pid, _, hpid⟩ := hprocess _ hask
      obtain ⟨kills, heq⟩ :=
        requestRestart_eq w base command.service command.reply
      rw [heq]
      exact .inr (h.park (hslot _ hask) ⟨pid, hpid⟩ hreplies
        (congrArg (·.insert command.service command.reply) hparked)
        (congrArg (insert command.service) hpending) hlive)
  | @demanded base hprep hidle =>
      obtain ⟨hreplies, hparked, hpending, hlive⟩ := hbase hprep
      have hall : Accounted acc base := by
        refine h.congr hreplies hparked hpending ?_
        rw [hlive]
        exact fun m pid hp _ => ⟨pid, hp⟩
      unfold spawnOnDemand
      split
      · exact .inr (hall.answered rfl rfl rfl (fun _ _ hp => hp))
      · split
        · exact .inl rfl
        · exact .inr (hall.answered rfl rfl rfl (fun _ _ hp => hp))
        · rename_i pid hspawn
          refine .inr (hall.answered rfl rfl rfl ?_)
          exact fun m p hp => live_track hspawn .command _ m p hp

/-- A spawn that is returned from the loop when it fails. -/
private theorem Accounted.spawnOrReturn {acc : List ReplySender} {s : State}
    (h : Accounted acc s) (w : World) (cause : Cause) (n : String)
    (svc : ServiceDef) : Settles acc (spawnOrReturn w s cause n svc) := by
  unfold FlintInit.spawnOrReturn
  split
  · exact .inl rfl
  · exact .inl rfl
  · rename_i pid hspawn
    refine .inr (h.congr rfl rfl rfl ?_)
    exact fun m p hp _ => ⟨p, live_track hspawn cause n m p hp⟩

/-- Only the service of a reaped child can lose its process. -/
private theorem live_reapChild {s : State} {pid : Pid} {n : String}
    (hlive : s.pidToName.lookup pid = some n) (rest : List Pid) (m : String)
    (p : Pid) (hm : m ≠ n) (hp : s.pidToName.lookup p = some m) :
    (s.reapChild pid rest).pidToName.lookup p = some m := by
  have hne : p ≠ pid := by
    intro heq
    rw [heq, hlive] at hp
    exact hm (Option.some.inj hp).symm
  change (s.pidToName.erase pid).lookup p = some m
  rw [lookup_erase_eq, if_neg hne]
  exact hp

/-- The end of a child that no one waits for. -/
private theorem Accounted.reapChild {acc : List ReplySender} {s : State}
    (h : Accounted acc s) {pid : Pid} {n : String}
    (hlive : s.pidToName.lookup pid = some n)
    (hpending : n ∉ s.pendingRestart) (rest : List Pid) :
    Accounted acc (s.reapChild pid rest) := by
  refine h.congr rfl rfl rfl ?_
  intro m p hp ⟨r, hr⟩
  refine ⟨p, live_reapChild hlive rest m p ?_ hp⟩
  intro hm
  exact hpending (hm ▸ h.pending m r hr)

/-- A final end sends nothing and parks nothing. -/
private theorem finishService_office (s : State) (n : String)
    (ending : Ending) :
    (finishService s n ending).replies = s.replies ∧
      (finishService s n ending).restartReplies = s.restartReplies ∧
      (finishService s n ending).pendingRestart = s.pendingRestart ∧
      (finishService s n ending).pidToName = s.pidToName := by
  obtain ⟨st, new, graph, blocked, reported, toStart, hdown, hnew, heq⟩ :=
    finishService_eq s n ending
  rw [heq]
  exact ⟨rfl, rfl, rfl, rfl⟩

/-- **The account is kept** over a step that parks senders only where they
have a slot and a process, and loses no process that is waited for. -/
theorem StepCase.settles {cfg : Config} {w : World} {s s' : State}
    {acc : List ReplySender} (hcase : StepCase cfg w s s')
    (hok : ParksFree cfg w s) (h : Accounted acc s) :
    Settles (acc ++ taken w s) s' := by
  have hquiet : ∀ {t : State}, s.phase ≠ .commands → Settles acc t →
      Settles (acc ++ taken w s) t := by
    intro t hphase ht
    have hnone : taken w s = [] := by
      unfold taken
      split
      · rename_i heq _
        exact absurd heq hphase
      · rfl
    rw [hnone, List.append_nil]
    exact ht
  cases hcase with
  | still phase marker hdead hpop hended hcommand =>
      have hnone : taken w s = [] := by
        unfold taken
        split
        · rename_i heq hsome
          rw [hcommand heq] at hsome
          cases hsome
        · rfl
      rw [hnone, List.append_nil]
      exact .inr (h.congr rfl rfl rfl (fun _ pid hp _ => ⟨pid, hp⟩))
  | @command command hphase hcommand =>
      have htaken : taken w s = [command.reply] := by
        simp only [taken, hphase, hcommand]
      have hasked : asked cfg w s = asks cfg w s command := by
        simp only [asked, hphase, hcommand]
      rw [htaken]
      exact (runCommand_cases cfg w s command).settles
        (hasked ▸ hok.slot) (hasked ▸ hok.process) h
  | @ready n phase hn hdead =>
      refine hquiet ?_ (.inr ?_)
      · intro hphase
        simp only [readyMessage, hphase] at hn
        cases hn
      · unfold reportReady
        split
        · exact h.congr rfl rfl rfl (fun _ pid hp _ => ⟨pid, hp⟩)
        · exact h.congr rfl rfl rfl (fun _ pid hp _ => ⟨pid, hp⟩)
  | @pop n rest hphase hqueue =>
      refine hquiet (by simp [hphase]) ?_
      rcases launchService_cases w { s with toStart := rest } n with
        ⟨_, heq⟩ | ⟨_, _, heq⟩ | ⟨svc, _, _, heq⟩
      · rw [heq]
        exact .inr (h.congr rfl rfl rfl (fun _ pid hp _ => ⟨pid, hp⟩))
      · rw [heq]
        exact .inr (h.congr rfl rfl rfl (fun _ pid hp _ => ⟨pid, hp⟩))
      · obtain ⟨removed, hstale⟩ := removeStale_eq
          (({ s with toStart := rest } : State).note (.popped n)) svc
        rw [heq, hstale]
        refine Accounted.spawnOrReturn ?_ w .launch n svc
        exact h.congr rfl rfl rfl (fun _ pid hp _ => ⟨pid, hp⟩)
  | @manual pid rest n ending hphase hend hlive hpending =>
      refine hquiet (by simp [hphase]) ?_
      have hreap := live_reapChild hlive rest
      unfold manualRestart
      split
      · exact .inl rfl
      · split
        · exact .inl rfl
        · rename_i new hspawn
          refine .inr (h.answerRestart (.ok ()) rfl rfl rfl ?_)
          intro m p hm hp
          exact live_track hspawn .manualRestart n m p (hreap m p hm hp)
        · rename_i e hspawn
          have hanswered : Accounted acc (answerRestart
              { s.reapChild pid rest with
                pendingRestart := s.pendingRestart.erase n } n
              (.error (.spawnFailed e))) :=
            h.answerRestart _ rfl rfl rfl (fun m p hm hp => hreap m p hm hp)
          exact .inr (hanswered.congr rfl rfl rfl
            (fun _ pid hp _ => ⟨pid, hp⟩))
  | @auto pid rest n ending hphase hend hlive hpending hdue =>
      refine hquiet (by simp [hphase]) ?_
      have hreap := h.reapChild hlive hpending rest
      unfold autoRestart
      split
      · exact .inl rfl
      · refine Accounted.spawnOrReturn ?_ ..
        exact hreap.congr rfl rfl rfl (fun _ pid hp _ => ⟨pid, hp⟩)
  | @finish pid rest n ending hphase hend hlive hpending hdue =>
      refine hquiet (by simp [hphase]) (.inr ?_)
      have hreap := h.reapChild hlive hpending rest
      obtain ⟨hreplies, hparked, hwaits, hsame⟩ := finishService_office
        { s.reapChild pid rest with
          restartCounts := entry s.restartCounts n 0 id } n ending
      refine hreap.congr hreplies hparked hwaits ?_
      rw [hsame]
      exact fun _ pid hp _ => ⟨pid, hp⟩
  | @lost pid rest hphase hwait =>
      refine hquiet (by simp [hphase]) (.inr (h.congr rfl rfl rfl ?_))
      rintro m p hp ⟨r, hr⟩
      have hlost : lostChild w s = some pid := by
        simp only [lostChild, hphase, hwait]
      change ∃ q, (s.pidToName.erase pid).lookup q = some m
      by_cases hpid : p = pid
      · subst hpid
        obtain ⟨q, _, hne, hq⟩ := hok.lost p hlost m hp
          (mem_keys_iff_lookup.mpr ⟨r, hr⟩)
        exact ⟨q, by rw [lookup_erase_eq, if_neg hne]; exact hq⟩
      · exact ⟨p, by rw [lookup_erase_eq, if_neg hpid]; exact hp⟩
  | refused hphase hwait => exact hquiet (by simp [hphase]) (.inl rfl)

/-- The end of a process that a restart was asked for answers the sender
parked for it. -/
theorem StepCase.answers {cfg : Config} {w : World} {s s' : State}
    (hcase : StepCase cfg w s s') {pid : Pid} {n : String} {ending : Ending}
    {r : ReplySender} (hended : endedChild w s = some (pid, n, ending))
    (hpending : n ∈ s.pendingRestart)
    (hparked : s.restartReplies.lookup n = some r) :
    s'.phase.dead = true ∨
      ∃ answer, s'.replies = (r, answer) :: s.replies := by
  obtain ⟨rest, hphase, hend, hlive⟩ := endedChild_eq_some hended
  cases hcase with
  | still phase marker hdead hpop hnone hcommand =>
      rw [hended] at hnone
      cases hnone
  | command hphase' hcommand =>
      rw [hphase] at hphase'
      cases hphase'
  | ready phase hn hdead =>
      simp only [readyMessage, hphase] at hn
      cases hn
  | pop hphase' hqueue =>
      rw [hphase] at hphase'
      cases hphase'
  | manual hphase' hend' hlive' hpending' =>
      rw [hphase] at hphase'
      cases hphase'
      rw [hlive] at hlive'
      cases hlive'
      have hanswer : ∀ (base : State) (answer : Except ReplyError Unit),
          base.restartReplies = s.restartReplies →
          (answerRestart base n answer).replies =
            (r, answer) :: base.replies := by
        intro base answer hsame
        unfold answerRestart
        rw [hsame, hparked]
        rfl
      unfold manualRestart
      split
      · exact .inl rfl
      · split
        · exact .inl rfl
        · exact .inr ⟨.ok (), hanswer _ _ rfl⟩
        · exact .inr ⟨_, hanswer _ _ rfl⟩
  | auto hphase' hend' hlive' hpending' hdue =>
      rw [hphase] at hphase'
      cases hphase'
      rw [hlive] at hlive'
      cases hlive'
      exact absurd hpending hpending'
  | finish hphase' hend' hlive' hpending' hdue =>
      rw [hphase] at hphase'
      cases hphase'
      rw [hlive] at hlive'
      cases hlive'
      exact absurd hpending hpending'
  | lost hphase' hwait =>
      simp only [hwait, Waitpid.ending] at hend
      cases hend
  | refused hphase' hwait => exact .inl rfl

/-! ## Runs -/

/-- **Every command is answered once.**  In every run that parks senders only
where they have a slot and a process, and loses no process that is waited for,
the senders received are the senders used and those parked; whoever is parked
waits for a restart that has been asked for, and for a process whose end
answers it. -/
theorem commands_answered_once (cfg : Config)
    (readFile : String → Except String String) (order : IterOrder String)
    (g : ServiceGraph) (services : List ServiceDef) (ws : List World)
    (hrun : EveryStep (ParksFree cfg) cfg readFile order g services ws) :
    let s := runWithMarker cfg readFile order g services ws
    s.phase.dead = false →
      (received cfg (initial cfg readFile order g services) ws).Perm
          (s.replies.map Prod.fst ++ values s.restartReplies) ∧
        ∀ n r, s.restartReplies.lookup n = some r →
          n ∈ s.pendingRestart ∧ ∃ pid, s.pidToName.lookup pid = some n ∧
            ∀ w ending, endedChild w s = some (pid, n, ending) →
              (step cfg w s).phase.dead = true ∨
                ∃ answer, (step cfg w s).replies =
                  (r, answer) :: s.replies := by
  intro s hlive
  have hsettles : Settles
      ([] ++ received cfg (initial cfg readFile order g services) ws) s := by
    refine collect_invariant Settles ?_ ws _ [] hrun (.inr ?_)
    · intro w s acc hok h
      rcases h with hdead | h
      · refine .inl ?_
        rw [step_dead hdead]
        exact hdead
      · exact (step_cases cfg w s).settles hok h
    · refine ⟨List.Perm.refl _, ?_, ?_⟩
      · exact fun _ _ h => nomatch h
      · exact fun _ _ h => nomatch h
  rcases hsettles with hdead | h
  · rw [hlive] at hdead
    cases hdead
  · refine ⟨h.senders, ?_⟩
    intro n r hr
    obtain ⟨pid, hpid⟩ := h.process n r hr
    refine ⟨h.pending n r hr, pid, hpid, ?_⟩
    intro w ending hended
    exact (step_cases cfg w s).answers hended (h.pending n r hr) hr

/-- The one command of the run is received once and answered once. -/
theorem commands_answered_once_restart :
    ∃ g, ServiceGraph.build .asStored oneJob = .ok (.ok g) ∧
      let s := runWithMarker .bare (fun _ => .error "") (.asStored _) g
        oneJob restartedJob
      s.replies = [(0, .ok ())] ∧
        (received .bare (initial .bare (fun _ => .error "") (.asStored _) g
          oneJob) restartedJob).Perm
          (s.replies.map Prod.fst ++ values s.restartReplies) :=
  ⟨_, rfl, by decide +kernel, (commands_answered_once .bare
    (fun _ => .error "") (.asStored _) _ oneJob restartedJob
    (by decide +kernel) (by decide +kernel)).1⟩

/-- Two clients restart the same job. -/
def restartedTwice : List World :=
  List.replicate 9 .idle ++
    [{ World.idle with command := some (.restart "job" 0) },
      { World.idle with command := some (.restart "job" 1) }]

/-- A client restarts a service that is shown as ready without a process. -/
def restartedUnlaunched : List World :=
  reportedEarly ++
    [.idle, { World.idle with command := some (.restart "web" 0) }]

/-- **Two ways to leave a client without an answer.**  The second restart
overwrites the sender of the first, which is neither used nor parked; and the
sender for a service without a process waits for nothing. -/
theorem clients_left_waiting :
    (∃ g, ServiceGraph.build .asStored oneJob = .ok (.ok g) ∧
      let s₀ := initial .bare (fun _ => .error "") (.asStored _) g oneJob
      let s := runWithMarker .bare (fun _ => .error "") (.asStored _) g
        oneJob restartedTwice
      s.phase = .commands ∧ received .bare s₀ restartedTwice = [0, 1] ∧
        s.replies = [] ∧ values s.restartReplies = [1]) ∧
    ∃ g, ServiceGraph.build .asStored dbAndWeb = .ok (.ok g) ∧
      let s := runWithMarker .bare (fun _ => .error "") (.asStored _) g
        dbAndWeb restartedUnlaunched
      s.restartReplies.lookup "web" = some 0 ∧
        ∀ pid ∈ s.pidToName.keys, s.pidToName.lookup pid ≠ some "web" :=
  ⟨⟨_, rfl, by decide +kernel⟩, _, rfl, by decide +kernel⟩

end FlintInit
