import Mathlib.Data.List.Induction
import Passhrs.Run.Main
import Std.Data.HashMap.Lemmas

/-!
# Channels of remote forwards

The server opens a channel for every connection that one of the `-R` listeners accepts, and names
the port of the listener. The handler looks the port up in a map that it was given, and dials the
target that it finds.

* **`forwarded_tcpip_dials_iff`**: every channel is dialled through to the target of the spec behind
  its listener exactly when specs that share a port share their target, and a port that the server
  allocated is also the port of a spec with that target.
-/

namespace Passhrs

open Effects

/-! ## The map -/

/-- `remote_forward_map`. -/
def remoteForwardMap (remoteForwards : List ForwardSpec) : Std.HashMap UInt16 ForwardSpec :=
  remoteForwards.foldl (fun map fw => map.insert fw.bindPort fw) ∅

theorem remoteForwardMap_concat (specs : List ForwardSpec) (fw : ForwardSpec) :
    remoteForwardMap (specs ++ [fw]) = (remoteForwardMap specs).insert fw.bindPort fw :=
  List.foldl_append

/-- What the map holds under a port is a spec with that port. -/
theorem mem_of_getElem?_remoteForwardMap {specs : List ForwardSpec} {port : UInt16}
    {fw : ForwardSpec} (h : (remoteForwardMap specs)[port]? = some fw) :
    fw ∈ specs ∧ fw.bindPort = port := by
  induction specs using List.reverseRecOn with
  | nil => simp [remoteForwardMap] at h
  | append_singleton specs last ih =>
    rw [remoteForwardMap_concat, Std.HashMap.getElem?_insert] at h
    split at h
    · next heq =>
      rw [← Option.some.inj h]
      exact ⟨by simp, eq_of_beq heq⟩
    · exact ⟨List.mem_append_left _ (ih h).1, (ih h).2⟩

/-- The map holds something under the port of every spec. -/
theorem exists_getElem?_remoteForwardMap {specs : List ForwardSpec} {fw : ForwardSpec}
    (h : fw ∈ specs) : ∃ fw', (remoteForwardMap specs)[fw.bindPort]? = some fw' := by
  induction specs using List.reverseRecOn with
  | nil => cases h
  | append_singleton specs last ih =>
    rw [remoteForwardMap_concat, Std.HashMap.getElem?_insert]
    split
    · exact ⟨last, rfl⟩
    · next hne =>
      rcases List.mem_append.mp h with hmem | hlast
      · exact ih hmem
      · rw [List.mem_singleton.mp hlast] at hne
        exact absurd BEq.rfl hne

/-! ## The callback -/

/-- What the callback does: the dial, and the two things it spawns, the confirmation of the channel
and the pump. -/
inductive RemoteOp where
  | connect (addr : String)
  | accept
  | pump

abbrev RemoteOp.Res : RemoteOp → Type
  | .connect _ => Except String Unit
  | .accept | .pump => Unit

abbrev RemoteLog : Type := List ((op : RemoteOp) × op.Res)

/-- The address that is dialled for a spec. -/
def ForwardSpec.target (spec : ForwardSpec) : String := s!"{spec.targetHost}:{spec.targetPort}"

/-- `server_channel_open_forwarded_tcpip`. The port is cut to 16 bits. -/
def serverChannelOpenForwardedTcpip (remoteForwards : Std.HashMap UInt16 ForwardSpec)
    (connectedPort : UInt32) : Action RemoteOp RemoteOp.Res String Unit := do
  match remoteForwards[connectedPort.toUInt16]? with
  | some spec =>
    match ← call (.connect spec.target) .ok with
    | .ok () => do
      call .accept .ok
      call .pump .ok
    | .error _ => pure ()
  | none => pure ()

/-- The addresses that were dialled. -/
def RemoteLog.dials (log : RemoteLog) : List String :=
  log.filterMap fun e =>
    match e.1 with
    | .connect addr => some addr
    | _ => none

/-- The callback dials what the map holds, once. -/
theorem dials_serverChannelOpenForwardedTcpip {τ : Type} (h : Handler RemoteOp RemoteOp.Res τ)
    (map : Std.HashMap UInt16 ForwardSpec) (port : UInt32) (t : τ) :
    RemoteLog.dials (execLog h (serverChannelOpenForwardedTcpip map port) t)
      = (map[port.toUInt16]?.map ForwardSpec.target).toList := by
  unfold serverChannelOpenForwardedTcpip
  rcases map[port.toUInt16]? with _ | spec
  · rfl
  · dsimp only
    rw [execLog_bind_ok (exec_call ..)]
    rcases hconnect : (h (.connect spec.target) t).1 with e | ⟨⟩
    · rw [execLog_call]
      rfl
    · rw [execLog_call, execLog_bind_ok (exec_call ..), execLog_call, execLog_call]
      rfl

/-! ## Listeners -/

/-- A spec is listened for: the server has accepted the request, with this answer. -/
def ListensFor (log : RunLog) (spec : ForwardSpec) (answer : UInt32) : Prop :=
  ⟨.tcpipForward spec.bindAddr spec.bindPort, .ok answer⟩ ∈ log

/-- The port that the channels of a listener name. -/
def connectedPort (spec : ForwardSpec) (answer : UInt32) : UInt32 :=
  if spec.bindPort = 0 then answer else spec.bindPort.toUInt32

theorem toUInt16_connectedPort {spec : ForwardSpec} (hne : spec.bindPort ≠ 0) (answer : UInt32) :
    (connectedPort spec answer).toUInt16 = spec.bindPort := by
  unfold connectedPort
  rw [if_neg hne]
  exact UInt16.toUInt16_toUInt32 _

theorem connectedPort_of_zero {spec : ForwardSpec} (hzero : spec.bindPort = 0) (answer : UInt32) :
    connectedPort spec answer = answer := if_pos hzero

/-- Every channel of every listener is dialled through to the target of its spec. -/
def DialsTargets (specs : List ForwardSpec) (log : RunLog) : Prop :=
  ∀ spec ∈ specs, ∀ answer, ListensFor log spec answer →
    ∀ (τ : Type) (h : Handler RemoteOp RemoteOp.Res τ) (t : τ),
      RemoteLog.dials (execLog h (serverChannelOpenForwardedTcpip (remoteForwardMap specs)
        (connectedPort spec answer)) t) = [spec.target]

/-- Targets that can all be reached. -/
def reachAll : Handler RemoteOp RemoteOp.Res Unit := fun op t =>
  match op with
  | .connect _ => (.ok (), t)
  | .accept | .pump => ((), t)

section Dialling

variable {σ : Type} {h : Handler RunOp RunOp.Res σ} {ctx : Surroundings} {cli : Cli}
  {st : Settings} {s : σ}

/-- A channel reaches its target when the map holds a spec with that target. -/
theorem dialsTargets_iff {specs : List ForwardSpec} {log : RunLog} :
    DialsTargets specs log ↔ ∀ spec ∈ specs, ∀ answer, ListensFor log spec answer →
      ∃ fw, (remoteForwardMap specs)[(connectedPort spec answer).toUInt16]? = some fw ∧
        fw.target = spec.target := by
  have hlookup : ∀ (found : Option ForwardSpec) (target : String),
      (found.map ForwardSpec.target).toList = [target] ↔
        ∃ fw, found = some fw ∧ fw.target = target := by
    intro found target
    cases found <;> simp
  constructor
  · intro hall spec hspec answer hlisten
    have hdials := hall spec hspec answer hlisten Unit reachAll ()
    rw [dials_serverChannelOpenForwardedTcpip] at hdials
    exact (hlookup _ _).mp hdials
  · intro hall spec hspec answer hlisten τ h t
    rw [dials_serverChannelOpenForwardedTcpip]
    exact (hlookup _ _).mpr (hall spec hspec answer hlisten)

/-- **Every channel of a remote forward reaches the target of its spec exactly when** specs that
share a port share their target, and an allocated port is the port of a spec with that target. -/
theorem forwarded_tcpip_dials_iff
    (haccepted : ∀ spec ∈ st.remoteForwards,
      ∃ answer, ListensFor (execLog h (run ctx cli st) s) spec answer)
    (hport : ∀ spec ∈ st.remoteForwards, spec.bindPort = 0 → ∀ answer,
      ListensFor (execLog h (run ctx cli st) s) spec answer → answer ≠ 0 ∧ answer < 65536) :
    DialsTargets st.remoteForwards (execLog h (run ctx cli st) s) ↔
      (∀ a ∈ st.remoteForwards, ∀ b ∈ st.remoteForwards, a.bindPort = b.bindPort →
        a.bindPort ≠ 0 → a.target = b.target) ∧
      ∀ a ∈ st.remoteForwards, a.bindPort = 0 → ∀ answer,
        ListensFor (execLog h (run ctx cli st) s) a answer →
          ∃ b ∈ st.remoteForwards, b.bindPort.toUInt32 = answer ∧ b.target = a.target := by
  rw [dialsTargets_iff]
  constructor
  · intro hall
    refine ⟨fun a ha b hb hab hne => ?_, fun a ha hzero answer hlisten => ?_⟩
    · obtain ⟨answer, hlisten⟩ := haccepted a ha
      obtain ⟨fw, hfw, htarget⟩ := hall a ha answer hlisten
      obtain ⟨answer', hlisten'⟩ := haccepted b hb
      obtain ⟨fw', hfw', htarget'⟩ := hall b hb answer' hlisten'
      rw [toUInt16_connectedPort hne] at hfw
      rw [toUInt16_connectedPort (hab ▸ hne), ← hab, hfw] at hfw'
      rw [← htarget, ← htarget', Option.some.inj hfw']
    · obtain ⟨fw, hfw, htarget⟩ := hall a ha answer hlisten
      obtain ⟨hmem, hfwPort⟩ := mem_of_getElem?_remoteForwardMap hfw
      refine ⟨fw, hmem, ?_, htarget⟩
      rw [hfwPort, connectedPort_of_zero hzero, UInt32.toUInt32_toUInt16]
      exact UInt32.mod_eq_of_lt (hport a ha hzero answer hlisten).2
  · rintro ⟨hshared, hallocated⟩ a ha answer hlisten
    by_cases hzero : a.bindPort = 0
    · obtain ⟨b, hb, hbPort, hbTarget⟩ := hallocated a ha hzero answer hlisten
      have hbNe : b.bindPort ≠ 0 := by
        intro hbZero
        rw [hbZero] at hbPort
        exact (hport a ha hzero answer hlisten).1 hbPort.symm
      -- the map holds `b`, or a spec with the port of `b`
      obtain ⟨fw, hfw⟩ := exists_getElem?_remoteForwardMap hb
      obtain ⟨hmem, hfwPort⟩ := mem_of_getElem?_remoteForwardMap hfw
      refine ⟨fw, ?_, (hshared fw hmem b hb hfwPort (hfwPort ▸ hbNe)).trans hbTarget⟩
      rw [connectedPort_of_zero hzero, ← hbPort, UInt16.toUInt16_toUInt32, hfw]
    · obtain ⟨fw, hfw⟩ := exists_getElem?_remoteForwardMap ha
      obtain ⟨hmem, hfwPort⟩ := mem_of_getElem?_remoteForwardMap hfw
      refine ⟨fw, ?_, hshared fw hmem a ha hfwPort (hfwPort ▸ hzero)⟩
      rw [toUInt16_connectedPort hzero, hfw]

end Dialling

/-! ## Two listeners on one port -/

/-- `-R 127.0.0.1:8080:a:80 -R 10.0.0.1:8080:b:80`. -/
def twoListeners : Settings :=
  { plainSettings with
    remoteForwards := [⟨"127.0.0.1", 8080, "a", 80⟩, ⟨"10.0.0.1", 8080, "b", 80⟩] }

/-- The channels of the first listener are dialled through to the target of the second. -/
theorem forwarded_tcpip_dials_other :
    ¬ ∀ (σ : Type) (h : Handler RunOp RunOp.Res σ) (ctx : Surroundings) (cli : Cli) (st : Settings)
        (s : σ),
      (st.remoteForwards.map fun spec => (spec.bindAddr, spec.bindPort)).Nodup →
      (∀ spec ∈ st.remoteForwards,
        ∃ answer, ListensFor (execLog h (run ctx cli st) s) spec answer) →
      (∀ spec ∈ st.remoteForwards, spec.bindPort = 0 → ∀ answer,
        ListensFor (execLog h (run ctx cli st) s) spec answer → answer ≠ 0 ∧ answer < 65536) →
      DialsTargets st.remoteForwards (execLog h (run ctx cli st) s) := by
  intro hall
  set cli := { Cli.ofCommand [] with noCommand := true }
  have hfirst : ListensFor (execLog grantAll (run bareSurroundings cli twoListeners) ())
      ⟨"127.0.0.1", 8080, "a", 80⟩ 0 := List.mem_of_getElem? (i := 2) rfl
  have hsecond : ListensFor (execLog grantAll (run bareSurroundings cli twoListeners) ())
      ⟨"10.0.0.1", 8080, "b", 80⟩ 0 := List.mem_of_getElem? (i := 3) rfl
  have haccepted : ∀ spec ∈ twoListeners.remoteForwards, ∃ answer,
      ListensFor (execLog grantAll (run bareSurroundings cli twoListeners) ()) spec answer := by
    simp only [twoListeners, List.mem_cons, List.not_mem_nil, or_false, forall_eq_or_imp, forall_eq]
    exact ⟨⟨0, hfirst⟩, 0, hsecond⟩
  have hdials := hall Unit grantAll bareSurroundings cli twoListeners () (by decide) haccepted
    (by simp [twoListeners]) ⟨"127.0.0.1", 8080, "a", 80⟩ (by decide) 0 hfirst Unit reachAll ()
  rw [dials_serverChannelOpenForwardedTcpip, connectedPort] at hdials
  -- the map has one entry a port, and the later forward has taken the place
  have hfound : (remoteForwardMap twoListeners.remoteForwards)[(8080 : UInt16)]?
      = some ⟨"10.0.0.1", 8080, "b", 80⟩ := by
    simp [remoteForwardMap, twoListeners]
  rw [if_neg (by decide), UInt16.toUInt16_toUInt32, hfound] at hdials
  exact absurd hdials (by decide)

/-- `-R 8080:a:80`. -/
def oneListener : Settings :=
  { plainSettings with remoteForwards := [⟨"127.0.0.1", 8080, "a", 80⟩] }

theorem forwarded_tcpip_dials_one :
    DialsTargets oneListener.remoteForwards
      (execLog grantAll (run bareSurroundings (Cli.ofCommand []) oneListener) ()) := by
  have hlistens : ∀ spec ∈ oneListener.remoteForwards, ∃ answer,
      ListensFor (execLog grantAll (run bareSurroundings (Cli.ofCommand []) oneListener) ())
        spec answer := by
    intro spec hspec
    rw [List.mem_singleton.mp hspec]
    exact ⟨0, List.mem_of_getElem? (i := 2) rfl⟩
  exact (forwarded_tcpip_dials_iff hlistens (by simp [oneListener])).mpr
    ⟨by simp [oneListener], by simp [oneListener]⟩

end Passhrs
