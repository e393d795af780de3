import FlintInit.Restarts
import Mathlib.Data.List.TakeWhile

/-!
# Accounts of the restarts

What the lives come to for the restart policies.  The count of restarts is
shared by clean and failing ends and never goes down: for `on-failure` this is
the number of failures in a row, for `always` it is the number of all ends, so
that a service that is to be respawned unconditionally fails with its sixth
end.
-/

namespace FlintInit

open Collections Release Runs

/-! ## Who is blocked because of whom -/

/-- A service is blocked because one that it needs was skipped or is over. -/
def Blamed (v : View) : Prop :=
  ∀ d ∈ v.blocked, ∃ m ∈ v.counted, d ∈ v.shape.needs m

/-- Every move blocks only what needs a service that it counts. These are the
pop of a blocked name and a final end that fails; no other move blocks
anything. -/
theorem Blamed.move {t : Trigger} {v v' : View} (h : Blamed v)
    (hmove : Move t v v') : Blamed v' := by
  have hkeep : v'.shape = v.shape → v'.blocked = v.blocked →
      v.counted ⊆ v'.counted → Blamed v' := by
    intro hshape hblocked hcounted d hd
    rw [hblocked] at hd
    obtain ⟨m, hm, hneeds⟩ := h d hd
    exact ⟨m, hcounted hm, by rw [hshape]; exact hneeds⟩
  -- `n` is counted, and what needs it is blocked
  have hblock : ∀ n, v'.shape = v.shape →
      (∀ d ∈ v'.blocked, d ∈ v.blocked ∨ d ∈ v.shape.needs n) →
      v'.counted = n :: v.counted → Blamed v' := by
    intro n hshape hblocked hcounted d hd
    rw [hshape, hcounted]
    rcases hblocked d hd with hold | hneeds
    · obtain ⟨m, hm, hneeds⟩ := h d hold
      exact ⟨m, List.mem_cons_of_mem _ hm, hneeds⟩
    · exact ⟨n, List.mem_cons_self, hneeds⟩
  have hfinish : ∀ (n : String) (ending : Ending) (exhausted : Bool) (d),
      d ∈ (if ending.fails exhausted && decide (n ∉ v.reported) then
          v.blocked ∪ (v.shape.needs n).toFinset else v.blocked) →
        d ∈ v.blocked ∨ d ∈ v.shape.needs n := by
    intro n ending exhausted d hd
    split at hd
    · rw [Finset.mem_union, List.mem_toFinset] at hd
      exact hd
    · exact .inl hd
  cases hmove with
  | @popBlocked _ n rest newly hq hb hnew =>
      refine hblock n rfl (fun d hd => ?_) rfl
      have hd : d ∈ v.blocked ∪ (v.shape.needs n).toFinset := hd
      rw [Finset.mem_union, List.mem_toFinset] at hd
      exact hd
  | @finishAgain _ n pid ending exhausted hlive hn =>
      exact hblock n rfl (hfinish n ending exhausted) rfl
  | @finishFirst _ n pid ending exhausted newly hlive hn hnew =>
      exact hblock n rfl (hfinish n ending exhausted) rfl
  | _ => exact hkeep rfl rfl (List.Subset.refl _)

/-! ## Accounting for the restarts -/

/-- A non-zero exit code, or a death by signal. -/
def Ending.failing : Ending → Bool
  | .exited code => code != 0
  | .signaled => true

/-- The length of the longest prefix of failing statuses. -/
def failures (seen : List Ending) : Nat :=
  (seen.takeWhile Ending.failing).length

/-- The account of a service that is over: `k` of its statuses come before the
first one without a restart. -/
structure SettledAs (k : Nat) (all : List Ending) (runs : Nat)
    (state : Option ServiceState) : Prop where
  runs : runs = min k 5 + 1
  failed : state = some .failed ↔ 6 ≤ k
  exited : k < 6 → ∃ ending, all[k]? = some ending ∧
    state = some (.exited ending.code)

/-- A service has been run again after each of its statuses and is up, or it
is over, whatever statuses would have followed. -/
def AccountedAs (k : List Ending → Nat) (seen : List Ending) (runs : Nat)
    (state : Option ServiceState) : Prop :=
  (runs = seen.length + 1 ∧ k seen = seen.length ∧ seen.length ≤ 5 ∧
      ∃ st, state = some st ∧ st.up = true) ∨
    ∀ all, seen <+: all → SettledAs (k all) all runs state

/-- What a life that is over has come to. -/
theorem settledAs_of_past {policy : Option RestartPolicy}
    {all : List Ending} {runs : Nat} {st : ServiceState}
    (h : Life.after policy all = .past runs st) :
    SettledAs (restarting policy all) all runs (some st) := by
  rw [Life.after_eq] at h
  split at h
  · rename_i hfull
    have hfull : 5 < restarting policy all := hfull
    cases h
    refine ⟨?_, iff_of_true rfl hfull, fun hlt => by omega⟩
    change 5 + 1 = _
    omega
  · rename_i hfew
    have hfew : ¬ 5 < restarting policy all := hfew
    split at h
    · rename_i ending hending
      cases h
      refine ⟨by omega, iff_of_false nofun (by omega), fun _ => ?_⟩
      exact ⟨ending, hending, rfl⟩
    · cases h

/-- A record that shows a life gives the account of its statuses. A life that
is still up has restarted after every status, and one that is over names the
status at which it stopped. -/
theorem accountedAs_of_shown {policy : Option RestartPolicy}
    {seen : List Ending} {r : Record}
    (h : (Life.after policy seen).Shown r) :
    AccountedAs (restarting policy) seen r.spawned r.state := by
  cases hlife : Life.after policy seen with
  | waiting =>
      rw [Life.after_eq] at hlife
      split at hlife
      · cases hlife
      · split at hlife <;> cases hlife
  | up used =>
      rw [hlife] at h
      rw [Life.after_eq] at hlife
      obtain ⟨hspawned, -, hle, hup, -⟩ := h
      have hle : used ≤ 5 := hle
      split at hlife
      · cases hlife
      · split at hlife
        · cases hlife
        · rename_i hend
          cases hlife
          -- no status is left that asks for no restart
          have hlen := List.getElem?_eq_none_iff.mp hend
          have hfront : restarting policy seen ≤ seen.length :=
            (List.takeWhile_prefix _).length_le
          exact .inl ⟨by omega, by omega, by omega, hup⟩
  | past runs st =>
      rw [hlife] at h
      obtain ⟨hspawned, hstate, -⟩ := h
      refine .inr fun all hall => ?_
      rw [hspawned, hstate]
      exact settledAs_of_past (Life.after_of_prefix hall hlife)

/-- For `on-failure` the ends that are followed by a restart are the failures
before the first clean end. -/
theorem restarting_onFailure :
    restarting (some .onFailure) = failures := by
  have hfailing : ∀ ending : Ending,
      ending.restarts (some .onFailure) = ending.failing := by
    intro ending
    cases ending <;> simp [Ending.restarts, shouldRestart, Ending.failing]
  funext seen
  simp only [restarting, failures, hfailing]

/-- Without a policy, or with `never`, no end is followed by a restart. -/
theorem restarting_never {policy : Option RestartPolicy}
    (h : policy = some .never ∨ policy = none) :
    restarting policy = fun _ => 0 := by
  have hno : ∀ ending : Ending, ending.restarts policy = false := by
    intro ending
    rcases h with rfl | rfl <;> cases ending <;> rfl
  funext seen
  cases seen with
  | nil => rfl
  | cons ending seen => simp [restarting, hno]

/-- Every process that `always` has restarted counts. -/
theorem restarting_always (seen : List Ending) :
    restarting (some .always) seen = seen.length := by
  have hyes : ∀ ending : Ending, ending.restarts (some .always) = true := by
    intro ending
    cases ending <;> rfl
  have htake : seen.takeWhile (·.restarts (some .always)) = seen :=
    List.takeWhile_eq_self_iff.mpr (fun ending _ => hyes ending)
  rw [restarting, htake]

section Launched

variable {orders : BuildOrders} {services : List ServiceDef}
  {g : ServiceGraph} (cfg : Config)
  (readFile : String → Except String String) (order : IterOrder String)
  {svc : ServiceDef} {ws : List World}

/-- **Restarts of a launched service.**  In a run without commands and
shutdown in which spawns succeed, an on-failure service is run once and then
again after each failing status, five times at most; a sixth one makes it
`Failed`, and the first clean one gives the code it exits with.  Any other
service without `always` is run once and exits with its code.  At every moment
both are told from the statuses of the service alone. -/
theorem restart_accounting
    (hg : ServiceGraph.build orders services = .ok (.ok g))
    (hsvc : svc ∈ services)
    (hrun : EveryStep (Unattended cfg) cfg readFile order g services ws)
    (hlaunched : svc.name ∈
      (runWithMarker cfg readFile order g services ws).view.spawned) :
    let s := runWithMarker cfg readFile order g services ws
    let seen := statuses cfg readFile order g services ws svc.name
    let runs := s.view.spawned.count svc.name
    let state := s.serviceStates.lookup svc.name
    (svc.service.restart = some .onFailure →
      AccountedAs failures seen runs state) ∧
    (svc.service.restart = some .never ∨ svc.service.restart = none →
      AccountedAs (fun _ => 0) seen runs state) := by
  intro s seen runs state
  have haccount := accountedAs_of_shown
    (life_of_launched hg hsvc hrun hlaunched)
  constructor
  · intro hpolicy
    rw [hpolicy, restarting_onFailure] at haccount
    exact haccount
  · intro hpolicy
    rw [restarting_never hpolicy] at haccount
    exact haccount

end Launched

/-- A service with a restart policy. -/
def restarted (name : String) (policy : RestartPolicy) : ServiceDef :=
  { makeService name [] [] with
    service := ⟨name, "/bin/" ++ name, some policy, none, none⟩ }

/-- A run with one service to launch, whose processes end like this. -/
def endings (answers : List Waitpid) : List World :=
  .idle :: answers.flatMap (fun answer =>
    List.replicate 5 .idle ++
      [{ World.idle with waitpid := answer }, .idle])

/-- Two failures are followed by a restart each, and the clean end is the last.
-/
theorem restart_accounting_job :
    ∃ g, ServiceGraph.build .asStored [restarted "job" .onFailure] =
        .ok (.ok g) ∧
      let ws := endings [.exited 1, .signaled 9, .exited 0]
      let s := runWithMarker .bare (fun _ => .error "") (.asStored _) g
        [restarted "job" .onFailure] ws
      let seen := statuses .bare (fun _ => .error "") (.asStored _) g
        [restarted "job" .onFailure] ws "job"
      seen = [.exited 1, .signaled, .exited 0] ∧
        s.view.spawned.count "job" = 3 ∧
        s.serviceStates.lookup "job" = some (.exited 0) ∧
        AccountedAs failures seen (s.view.spawned.count "job")
          (s.serviceStates.lookup "job") := by
  refine ⟨_, rfl, by decide +kernel, by decide +kernel, by decide +kernel,
    ?_⟩
  exact (restart_accounting .bare (fun _ => .error "") (.asStored _)
    (rfl : ServiceGraph.build .asStored [restarted "job" .onFailure] =
      .ok (.ok _)) (List.mem_singleton_self (restarted "job" .onFailure))
    (by decide +kernel) (by decide +kernel)).1 rfl

section Always

variable {orders : BuildOrders} {services : List ServiceDef}
  {g : ServiceGraph} (cfg : Config)
  (readFile : String → Except String String) (order : IterOrder String)
  {svc : ServiceDef} {ws : List World}

/-- **Restarts of an `always` service.**  In such a run the service has been
run again after each of its ends, has not failed, and is not the reason why a
service that needs it is blocked, exactly as long as it has ended five times
at most, cleanly or not. -/
theorem always_restarted_iff
    (hg : ServiceGraph.build orders services = .ok (.ok g))
    (hsvc : svc ∈ services) (hpolicy : svc.service.restart = some .always)
    (hrun : EveryStep (Unattended cfg) cfg readFile order g services ws)
    (hlaunched : svc.name ∈
      (runWithMarker cfg readFile order g services ws).view.spawned) :
    let s := runWithMarker cfg readFile order g services ws
    let seen := statuses cfg readFile order g services ws svc.name
    (s.view.spawned.count svc.name = seen.length + 1 ∧
        s.serviceStates.lookup svc.name ≠ some .failed ∧
        ∀ d ∈ s.graph.needsDependentsOf svc.name, d ∈ s.blockedServices →
          ∃ m ∈ s.view.counted, m ≠ svc.name ∧
            d ∈ s.graph.needsDependentsOf m) ↔
      seen.length ≤ 5 := by
  intro s seen
  have hshown := life_of_launched hg hsvc hrun hlaunched
  have hblamed : Blamed s.view :=
    run_invariant (fun s : State => Blamed s.view)
      (fun w s _ h => by
        obtain ⟨t, hmove, -⟩ := step_move cfg w s
        exact h.move hmove) ws _ (Meets.trivial _ ws) nofun
  rw [hpolicy, Life.after_eq, restarting_always] at hshown
  by_cases hmany : maxRestarts < seen.length
  · rw [if_pos hmany] at hshown
    have hmany : 5 < seen.length := hmany
    refine iff_of_false (fun ⟨_, hstate, _⟩ => hstate ?_) (by omega)
    exact hshown.2.1
  · rw [if_neg hmany, List.getElem?_eq_none (Nat.le_refl _)] at hshown
    obtain ⟨hspawned, -, hle, ⟨st, hst, hup⟩, -, hcounted, -⟩ := hshown
    refine iff_of_true ⟨hspawned, ?_, ?_⟩ hle
    · intro hfailed
      have hst : s.serviceStates.lookup svc.name = some st := hst
      rw [hfailed] at hst
      cases hst
      cases hup
    · intro d _ hblocked
      obtain ⟨m, hm, hneeds⟩ := hblamed d hblocked
      exact ⟨m, hm, fun heq => hcounted (heq ▸ hm), hneeds⟩

end Always

/-- A login prompt, and a session that needs it. -/
def loginServices : List ServiceDef :=
  [restarted "getty" .always, makeService "session" [] ["getty"]]

/-- Five ends are the most that `always` survives. -/
theorem always_restarted_iff_login :
    ∃ g, ServiceGraph.build .asStored loginServices = .ok (.ok g) ∧
      let s := runWithMarker .bare (fun _ => .error "") (.asStored _) g
        loginServices (endings (List.replicate 5 (.exited 0)))
      s.view.spawned.count "getty" = 6 ∧
        s.serviceStates.lookup "getty" ≠ some .failed := by
  refine ⟨_, rfl, ?_⟩
  have h := (always_restarted_iff .bare (fun _ => .error "") (.asStored _)
    (rfl : ServiceGraph.build .asStored loginServices = .ok (.ok _))
    (show restarted "getty" .always ∈ loginServices from List.mem_cons_self)
    rfl
    (show EveryStep (Unattended .bare) .bare (fun _ => .error "")
      (.asStored _) _ loginServices (endings (List.replicate 5 (.exited 0)))
      by decide +kernel)
    (by decide +kernel)).mpr (by decide +kernel)
  exact ⟨by decide +kernel, h.2.1⟩

/-- **Six logouts end the login prompt**: none of them is a failure, and the
service is marked `Failed`, not spawned again, and blocks the session. -/
theorem six_logouts_fail_getty :
    ∃ g, ServiceGraph.build .asStored loginServices = .ok (.ok g) ∧
      let ws := endings (List.replicate 6 (.exited 0))
      let s := runWithMarker .bare (fun _ => .error "") (.asStored _) g
        loginServices ws
      EveryStep (Unattended .bare) .bare (fun _ => .error "") (.asStored _) g
        loginServices ws ∧
      statuses .bare (fun _ => .error "") (.asStored _) g loginServices ws
        "getty" = List.replicate 6 (.exited 0) ∧
      s.view.spawned.count "getty" = 6 ∧
      s.serviceStates.lookup "getty" = some .failed ∧
      "session" ∈ s.blockedServices :=
  ⟨_, rfl, by decide +kernel, by decide +kernel, by decide +kernel,
    by decide +kernel, by decide +kernel⟩

end FlintInit
