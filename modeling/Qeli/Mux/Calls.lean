import Qeli.Mux.Cutting

/-!
# Sequences of calls

`Stretch` says what a number of calls adds to the stream of frames: every packet
accepted, cut into frames under its own id, in order, behind the frames that were
pending. It holds of every call (`call_stretch`) and composes, so it holds of
every sequence of calls (`runCalls_stretch`), whatever the sequence of record
targets and whichever configurations are raised in between.
-/

namespace Qeli.Mux

open Qeli.Lib

structure Sending where
  id : UInt32
  packet : Packet
  frames : List Frame

/-- The packet is cut into its frames under a configuration with `Q`. -/
structure Sending.Cut (Q : RuntimeConfig → Prop) (x : Sending) : Prop where
  cuts : Cuts x.id x.packet x.packet.length x.frames
  nonempty : 0 < x.packet.length
  length : x.packet.length ≤ u16Max
  limits : ∃ c, Q c ∧ x.packet.length ≤ c.maxPacketBytes ∧
    x.frames.length ≤ max 1 c.maxFragmentsPerPacket

def stream (sent : List Sending) : List Frame := (sent.map Sending.frames).flatten

@[simp] theorem stream_append (xs ys : List Sending) : stream (xs ++ ys) = stream xs ++ stream ys := by
  simp [stream]

namespace Recordizer

/-- What calls with `n` pushes add: the records `recs`, the packets `sent`. Ids
are counted from the sender's next id. -/
structure Stretch (Q : RuntimeConfig → Prop) (s : Recordizer) (cur : Option (List Frame))
    (s' : Recordizer) (cur' : Option (List Frame)) (records : List Record) (packets : List Packet)
    (n : Nat) (recs : List (List Frame)) (sent : List Sending) : Prop where
  records : records = recs.map envelope
  packets : packets = sent.map Sending.packet
  holds : s'.Holds cur'
  config : Q s'.config
  order : cur.getD [] ++ stream sent = recs.flatten ++ cur'.getD []
  cut : ∀ x ∈ sent, x.Cut Q
  ids : ∃ (m : Nat) (ks : List Nat), m ≤ n ∧ s'.nextPacketId = s.nextPacketId + UInt32.ofNat m ∧
    sent.map Sending.id = ks.map (fun k => s.nextPacketId + UInt32.ofNat k) ∧
    ks.Pairwise (· < ·) ∧ ∀ k ∈ ks, k < m
  filled : (∀ c, Q c → Usable c) → cur ≠ some [] → Filled recs cur'

variable {Q : RuntimeConfig → Prop} {s t u : Recordizer} {cur cur' cur'' : Option (List Frame)}

theorem Stretch.nil (h : s.Holds cur) (hq : Q s.config) : Stretch Q s cur s cur [] [] 0 [] [] where
  records := rfl
  packets := rfl
  holds := h
  config := hq
  order := by simp [stream]
  cut := by simp
  ids := ⟨0, [], Nat.le_refl _, by simp, rfl, .nil, by simp⟩
  filled := fun _ hne => ⟨by simp, hne⟩

theorem Stretch.trans {r₁ r₂ : List Record} {p₁ p₂ : List Packet} {n₁ n₂ : Nat}
    {recs₁ recs₂ : List (List Frame)} {sent₁ sent₂ : List Sending}
    (h₁ : Stretch Q s cur t cur' r₁ p₁ n₁ recs₁ sent₁)
    (h₂ : Stretch Q t cur' u cur'' r₂ p₂ n₂ recs₂ sent₂) :
    Stretch Q s cur u cur'' (r₁ ++ r₂) (p₁ ++ p₂) (n₁ + n₂) (recs₁ ++ recs₂) (sent₁ ++ sent₂) where
  records := by rw [h₁.records, h₂.records, List.map_append]
  packets := by rw [h₁.packets, h₂.packets, List.map_append]
  holds := h₂.holds
  config := h₂.config
  order := by
    rw [stream_append, ← List.append_assoc, h₁.order, List.append_assoc, h₂.order,
      List.flatten_append, List.append_assoc]
  cut := by
    intro x hx
    rcases List.mem_append.mp hx with hx | hx
    · exact h₁.cut x hx
    · exact h₂.cut x hx
  ids := by
    obtain ⟨m₁, ks₁, hm₁, hn₁, hk₁, hp₁, hl₁⟩ := h₁.ids
    obtain ⟨m₂, ks₂, hm₂, hn₂, hk₂, hp₂, hl₂⟩ := h₂.ids
    refine ⟨m₁ + m₂, ks₁ ++ ks₂.map (m₁ + ·), by omega, ?_, ?_, ?_, ?_⟩
    · rw [hn₂, hn₁, UInt32.ofNat_add, UInt32.add_assoc]
    · rw [List.map_append, List.map_append, hk₁, hk₂, hn₁, List.map_map]
      congr 1
      refine List.map_congr_left fun k _ => ?_
      simp only [Function.comp, UInt32.ofNat_add, UInt32.add_assoc]
    · rw [List.pairwise_append]
      refine ⟨hp₁, List.pairwise_map.mpr (hp₂.imp fun h => by omega), fun a ha b hb => ?_⟩
      obtain ⟨k, _, rfl⟩ := List.mem_map.mp hb
      have := hl₁ a ha
      omega
    · intro k hk
      rcases List.mem_append.mp hk with hk | hk
      · have := hl₁ k hk
        omega
      · obtain ⟨j, hj, rfl⟩ := List.mem_map.mp hk
        have := hl₂ j hj
        omega
  filled := fun hu hne => by
    have hf₁ := h₁.filled hu hne
    have hf₂ := h₂.filled hu hf₁.2
    refine ⟨fun fs hfs => ?_, hf₂.2⟩
    rcases List.mem_append.mp hfs with hfs | hfs
    · exact hf₁.1 fs hfs
    · exact hf₂.1 fs hfs

theorem Stretch.flush (h : s.Holds cur) (hq : Q s.config) :
    Stretch Q s cur s.flush.1 none s.flush.2.toList [] 0 cur.toList [] := by
  obtain ⟨h1, h2⟩ := h.flush
  refine ⟨?_, rfl, h1, by simpa using hq, by cases cur <;> simp [stream], by simp,
    ⟨0, [], Nat.le_refl _, by simp, rfl, .nil, by simp⟩, fun _ hne => ?_⟩
  · rw [h2]
    cases cur <;> rfl
  · refine ⟨fun fs hfs => ?_, by simp⟩
    rintro rfl
    exact hne (Option.mem_toList.mp hfs)

def Call.pushes : Call → Nat
  | .push _ _ => 1
  | _ => 0

def Call.configs : Call → List RuntimeConfig
  | .raiseRuntime config => [config]
  | _ => []

theorem push_stretch {packet : Packet} {now : Nat} {res : Except RecordizerError (List Record)}
    (h : s.Holds cur) (hq : Q s.config) (hpush : s.push packet now = some (t, res)) :
    ∃ cur' recs sent, Stretch Q s cur t cur' (Reply.records (.pushed res))
      (acceptedBy (.push packet now, .pushed res)).toList 1 recs sent := by
  have hcases := push_cases h hpush
  cases hcases with
  | failed hholds hc hid =>
    refine ⟨cur, [], [], rfl, rfl, hholds, by rw [hc]; exact hq, by simp [stream], by simp, ?_,
      fun _ hne => ⟨by simp, hne⟩⟩
    rcases hid with hid | hid
    · exact ⟨0, [], Nat.zero_le _, by simp [hid], rfl, .nil, by simp⟩
    · exact ⟨1, [], Nat.le_refl _, by simp [hid], rfl, .nil, by simp⟩
  | @pushed ready recs cur' fs hp hpos hmax hlen =>
    refine ⟨cur', recs, [⟨s.nextPacketId, packet, fs⟩], hp.emits.ready, rfl, hp.emits.holds,
      by rw [hp.config]; exact hq, by simpa [stream] using hp.order, ?_, ?_,
      fun hu hne => hp.filled (hu _ hq) hne⟩
    · simp only [List.mem_singleton, forall_eq]
      exact ⟨hp.cuts, hpos, hlen, s.config, hq, hmax, hp.count⟩
    · exact ⟨1, [0], Nat.le_refl _, by simp [hp.packetId], by simp, by simp, by simp⟩

theorem records_flushed (record : Option Record) :
    Reply.records (.flushed record) = record.toList := by
  cases record <;> rfl

theorem flushed_stretch {r : Recordizer × Option Record} (h : s.Holds cur) (hq : Q s.config)
    (hr : r = s.flush ∨ r = (s, none)) :
    ∃ cur' recs sent, Stretch Q s cur r.1 cur' (Reply.records (.flushed r.2)) [] 0 recs sent := by
  rw [records_flushed]
  rcases hr with rfl | rfl
  · exact ⟨none, cur.toList, [], Stretch.flush h hq⟩
  · exact ⟨cur, [], [], Stretch.nil h hq⟩

theorem flushDue_cases (s : Recordizer) (now : Nat) :
    s.flushDue now = s.flush ∨ s.flushDue now = (s, none) := by
  unfold flushDue
  split
  · split
    · exact .inl rfl
    · exact .inr rfl
  · exact .inr rfl

theorem finishReadyBatch_cases (s : Recordizer) :
    s.finishReadyBatch = s.flush ∨ s.finishReadyBatch = (s, none) := by
  unfold finishReadyBatch
  split
  · exact .inl rfl
  · exact .inr rfl

/-- **One call.** -/
theorem call_stretch {c : Call} {reply : Reply} (h : s.Holds cur) (hq : Q s.config)
    (hconf : ∀ config ∈ c.configs, Q config) (hcall : s.call c = some (t, reply)) :
    ∃ cur' recs sent, Stretch Q s cur t cur' (Reply.records reply) (acceptedBy (c, reply)).toList
      c.pushes recs sent := by
  cases c with
  | push packet now =>
    simp only [call, Option.map_eq_some_iff, Prod.mk.injEq] at hcall
    obtain ⟨⟨t', res⟩, hp, rfl, rfl⟩ := hcall
    exact push_stretch h hq hp
  | flush =>
    cases hcall
    exact flushed_stretch h hq (.inl rfl)
  | flushDue now =>
    cases hcall
    exact flushed_stretch h hq (flushDue_cases s now)
  | finishReadyBatch =>
    cases hcall
    exact flushed_stretch h hq (finishReadyBatch_cases s)
  | raiseRuntime config =>
    cases hcall
    unfold raiseRuntime
    split
    · exact ⟨cur, [], [], Stretch.nil h hq⟩
    · have hq' : Q config := hconf config (by simp [Call.configs])
      refine ⟨cur, [], [], ?_⟩
      have hholds : Holds { s with config := config } cur := by cases cur <;> exact h
      exact { Stretch.nil hholds (Q := Q) hq' with }

def pushCount (calls : List Call) : Nat := (calls.map Call.pushes).sum

variable {calls : List Call} {events : List (Call × Reply)}

/-- **Every sequence of calls.** -/
theorem runCalls_stretch (h : s.Holds cur) (hq : Q s.config)
    (hconf : ∀ c ∈ calls, ∀ config ∈ c.configs, Q config)
    (hrun : s.runCalls calls = some (t, events)) :
    ∃ cur' recs sent, Stretch Q s cur t cur' (sentRecords events) (acceptedPackets events)
      (pushCount calls) recs sent := by
  induction calls generalizing s cur events with
  | nil =>
    cases hrun
    exact ⟨cur, [], [], Stretch.nil h hq⟩
  | cons c calls ih =>
    unfold runCalls at hrun
    split at hrun
    · cases hrun
    · next s₁ reply hcall =>
      split at hrun
      · cases hrun
      · next s₂ rest hrest =>
        cases hrun
        obtain ⟨cur₁, recs₁, sent₁, h₁⟩ :=
          call_stretch h hq (hconf c List.mem_cons_self) hcall
        obtain ⟨cur₂, recs₂, sent₂, h₂⟩ := ih h₁.holds h₁.config
          (fun c' hc' => hconf c' (List.mem_cons_of_mem _ hc')) hrest
        refine ⟨cur₂, recs₁ ++ recs₂, sent₁ ++ sent₂, ?_⟩
        have h := h₁.trans h₂
        have hacc : acceptedPackets ((c, reply) :: rest) =
            (acceptedBy (c, reply)).toList ++ acceptedPackets rest := by
          unfold acceptedPackets
          cases ha : acceptedBy (c, reply) <;> simp [ha]
        rw [hacc]
        simpa [sentRecords, pushCount] using h

theorem runCalls_snoc {c : Call} (hrun : s.runCalls (calls ++ [c]) = some (t, events)) :
    ∃ s₁ before reply, s.runCalls calls = some (s₁, before) ∧ s₁.call c = some (t, reply) ∧
      events = before ++ [(c, reply)] := by
  induction calls generalizing s events with
  | nil =>
    simp only [List.nil_append, runCalls] at hrun
    split at hrun
    · cases hrun
    · next s₁ reply hcall =>
      cases hrun
      exact ⟨s, [], reply, rfl, hcall, rfl⟩
  | cons d calls ih =>
    rw [List.cons_append] at hrun
    unfold runCalls at hrun
    split at hrun
    · cases hrun
    · next s₁ reply hcall =>
      split at hrun
      · cases hrun
      · next s₂ rest hrest =>
        cases hrun
        obtain ⟨s₃, before, reply', h1, h2, rfl⟩ := ih hrest
        refine ⟨s₃, (d, reply) :: before, reply', ?_, h2, rfl⟩
        simp [runCalls, hcall, h1]

theorem runCalls_flush_stretch (h : s.Holds cur) (hq : Q s.config)
    (hconf : ∀ c ∈ calls, ∀ config ∈ c.configs, Q config)
    (hrun : s.runCalls (calls ++ [.flush]) = some (t, events)) :
    ∃ recs sent, Stretch Q s cur t none (sentRecords events) (acceptedPackets events)
      (pushCount calls) recs sent := by
  obtain ⟨s₁, before, reply, h1, h2, rfl⟩ := runCalls_snoc hrun
  obtain ⟨cur₁, recs, sent, hst⟩ := runCalls_stretch h hq hconf h1
  cases h2
  have hlast := hst.trans (Stretch.flush hst.holds hst.config)
  refine ⟨recs ++ cur₁.toList, sent ++ [], ?_⟩
  have hnone : [(Call.flush, Reply.flushed s₁.flush.2)].filterMap acceptedBy = [] := rfl
  simpa [sentRecords, acceptedPackets, hnone, records_flushed] using hlast

theorem call_returns (h : s.Holds cur) (hne : cur ≠ some []) (hpackets : 1 ≤ s.config.maxPackets)
    (hpayload : minRecordPayload ≤ s.config.maxPayloadBytes) (c : Call) :
    (s.call c).isSome := by
  cases c with
  | push packet now => simpa [call] using push_returns h hne hpackets hpayload
  | flush | flushDue | finishReadyBatch | raiseRuntime => rfl

/-- **With usable configurations every call returns.** -/
theorem runCalls_returns (hu : ∀ c, Q c → Usable c) (h : s.Holds cur) (hne : cur ≠ some [])
    (hq : Q s.config) (hconf : ∀ c ∈ calls, ∀ config ∈ c.configs, Q config) :
    (s.runCalls calls).isSome := by
  induction calls generalizing s cur with
  | nil => rfl
  | cons c calls ih =>
    have hcall := call_returns h hne (hu _ hq).packets (hu _ hq).payload c
    obtain ⟨⟨s₁, reply⟩, heq⟩ := Option.isSome_iff_exists.mp hcall
    obtain ⟨cur₁, recs₁, sent₁, h₁⟩ := call_stretch h hq (hconf c List.mem_cons_self) heq
    have hrest := ih h₁.holds (h₁.filled hu hne).2 h₁.config
      fun c' hc' => hconf c' (List.mem_cons_of_mem _ hc')
    obtain ⟨⟨s₂, rest⟩, heq₂⟩ := Option.isSome_iff_exists.mp hrest
    unfold runCalls
    rw [heq]
    dsimp only
    rw [heq₂]
    rfl

/-- Ids of different packets differ as long as the counter has not come round. -/
theorem Stretch.ids_nodup {records : List Record} {packets : List Packet} {n : Nat}
    {recs : List (List Frame)} {sent : List Sending}
    (h : Stretch Q s cur t cur' records packets n recs sent) (hn : n ≤ 2 ^ 32) :
    (sent.map Sending.id).Nodup := by
  obtain ⟨m, ks, hm, _, hids, hsorted, hlt⟩ := h.ids
  rw [hids]
  refine List.Nodup.map_on ?_ (hsorted.imp Nat.ne_of_lt)
  intro a ha b hb hab
  have h1 := hlt a ha
  have h2 := hlt b hb
  have hab' : UInt32.ofNat a = UInt32.ofNat b := (UInt32.add_right_inj _).mp hab
  have := congrArg UInt32.toNat hab'
  rwa [UInt32.toNat_ofNat_of_lt' (by simp [UInt32.size]; omega),
    UInt32.toNat_ofNat_of_lt' (by simp [UInt32.size]; omega)] at this

end Recordizer

end Qeli.Mux
