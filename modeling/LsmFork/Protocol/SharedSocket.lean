import LsmFork.Lib.SharedReply
import LsmFork.Protocol.Alignment
import LsmFork.Server.Accept

/-!
# Hooks that share the socket

The socket and `analyzer_response` are globals, and no lock is held over more than one call.  A hook
sends a frame in two calls, the header and then the payload, receives a reply into the global and
returns the global's negation, and between any two of these steps the hooks of other processes may
take theirs.  This file is the step relation, with each send and each receive atomic, and one half
of what is asked of it: that the server parses the frames of the hooks.

The server sees bytes only.  The wire of the model keeps, next to each part, the invocation that
sent it, so that one can say whose frames and whose replies they are.

* `Part`, `Frame.parts`: the two sends of a frame; `TcpHook.parts_bytes`: a hook sends these.
* `Shared`, `Step`: the invocations, the wire and the globals, and the steps.
* `sent`, `sentBy`, `sentEnds`: the frames that have been sent in full, and by whom.
* `FramesIntact`: the server parses these frames and no others.
* `SendInv`, `SendInv.send`: what a send keeps when no other invocation is inside a frame.
* `SendInv.framesIntact`: this is enough for the server.
-/

namespace LsmFork

open SharedReply

/-! ## The two sends of a frame -/

/-- What one call of `lsm_send_to_userspace_tcp` hands to the socket. -/
inductive Part where
  | header (f : Frame)
  | payload (f : Frame)
  deriving DecidableEq

namespace Part

/-- The bytes of the part. -/
def bytes : Part → List UInt8
  | header f => f.header.toBytes
  | payload f => f.payload

/-- The frame that has been sent in full with this part. -/
def completes : Part → Option Frame
  | header f => if f.payload = [] then some f else none
  | payload f => some f

end Part

/-- The parts of a frame: its header, and its payload if there is one. -/
def Frame.parts (f : Frame) : List Part :=
  .header f :: if f.payload = [] then [] else [.payload f]

/-- The parts that a hook sends. -/
def TcpHook.parts (M : PhysMem) (h : TcpHook) : List Part := (h.frames M).flatMap Frame.parts

theorem Frame.parts_bytes (f : Frame) : f.parts.map Part.bytes = f.chunks := by
  rw [parts, chunks]
  split <;> rfl

/-- **The parts of a hook are the buffers that it hands to the socket.** -/
theorem TcpHook.parts_bytes (M : PhysMem) (h : TcpHook) :
    (h.parts M).map Part.bytes = sends (h.run M).1 := by
  rw [sends_run, parts, List.map_flatMap]
  exact List.flatMap_congr fun f _ => f.parts_bytes

theorem Frame.parts_completes (f : Frame) : f.parts.filterMap Part.completes = [f] := by
  rw [parts]
  split
  · rename_i hpayload
    simp [Part.completes, hpayload]
  · rename_i hpayload
    simp [Part.completes, hpayload]

theorem TcpHook.parts_completes (M : PhysMem) (h : TcpHook) :
    (h.parts M).filterMap Part.completes = h.frames M := by
  rw [parts, List.filterMap_flatMap]
  simp only [Frame.parts_completes, List.flatMap_singleton']

/-! ## The steps -/

/-- The invocations and the globals they share: what each has still to send and where it stands,
everything written to `sock`, the number of replies taken from it, and `analyzer_response`. -/
structure Shared (ι : Type*) where
  pending : ι → List Part
  phase : ι → Phase Int32
  wire : List (ι × Part)
  taken : ℕ
  analyzerResponse : UInt32

/-- A step, by the invocation that takes it. -/
inductive Act (ι : Type*) where
  | send (i : ι)
  | receive (i : ι)
  | finish (i : ι)
  deriving DecidableEq

/-- A server whose own calls succeed. -/
def servingEnv : ServerEnv := ⟨fun _ _ => true, fun _ => true⟩

variable {ι : Type*}

/-- The bytes on the wire. -/
def wireBytes (wire : List (ι × Part)) : List UInt8 := wire.flatMap fun s => s.2.bytes

/-- What the server has done with the bytes on the wire. -/
def serverEvents (wire : List (ι × Part)) : List ServerEvent :=
  (receiveLoop servingEnv).run (.start (wire.map fun s => s.2.bytes))

variable [DecidableEq ι] (M : PhysMem) (hooks : ι → TcpHook)

/-- Before the first step. -/
def Shared.start (response : UInt32) : Shared ι where
  pending i := (hooks i).parts M
  phase _ := .asking
  wire := []
  taken := 0
  analyzerResponse := response

/-- An invocation hands its next part to the socket. -/
def Shared.sendPart (w : Shared ι) (i : ι) (part : Part) (rest : List Part) : Shared ι :=
  { w with
    pending := Function.update w.pending i rest
    wire := w.wire ++ [(i, part)] }

/-- An invocation takes the next reply into `analyzer_response`. -/
def Shared.takeReply (w : Shared ι) (i : ι) (reply : Chars 4) : Shared ι :=
  { w with
    phase := Function.update w.phase i .received
    taken := w.taken + 1
    analyzerResponse := lsmReceiveReplyTcp reply.toList }

/-- An invocation returns. -/
def Shared.finish (w : Shared ι) (i : ι) (value : Int32) : Shared ι :=
  { w with phase := Function.update w.phase i (.returned value) }

variable (answer : ℕ → Chars 4)

/-- **One step of one invocation.**  `answer k` is the server's `k`-th reply.  A hook that has sent
all of its parts receives as soon as the server has sent a reply that has not been taken, or returns
at once if it does not wait.  The step that receives is a `_tcp_recv` that finds the reply alone in
the queue; one that finds another behind it goes round in its loop and does not return. -/
inductive Step (w : Shared ι) : Act ι → Shared ι → Prop
  | send {i : ι} {part : Part} {rest : List Part} (hphase : w.phase i = .asking)
      (hpending : w.pending i = part :: rest) : Step w (.send i) (w.sendPart i part rest)
  | receive {i : ι} (hphase : w.phase i = .asking) (hsent : w.pending i = [])
      (hwaits : ((hooks i).run M).2 = .awaitReply)
      (hreply : w.taken < (replies (serverEvents w.wire)).length) :
      Step w (.receive i) (w.takeReply i (answer w.taken))
  | finish {i : ι} (hphase : w.phase i = .received) :
      Step w (.finish i) (w.finish i (hookVerdict 4 w.analyzerResponse))
  | leave {i : ι} {value : Int32} (hphase : w.phase i = .asking) (hsent : w.pending i = [])
      (hearly : ((hooks i).run M).2 = .ret value) : Step w (.finish i) (w.finish i value)

/-! ## The frames sent -/

/-- The frames sent in full, in the order of their last parts. -/
def sent (wire : List (ι × Part)) : List (ι × Frame) :=
  wire.filterMap fun s => s.2.completes.map fun f => (s.1, f)

/-- The frames that one invocation has sent in full. -/
def sentBy (i : ι) (wire : List (ι × Part)) : List Frame :=
  ((sent wire).filter fun s => s.1 = i).map Prod.snd

/-- The frames sent in full that the server answers, with the invocations that wait for the
answers. -/
def sentEnds (wire : List (ι × Part)) : List (ι × Frame) :=
  (sent wire).filter fun s => s.2.IsEnd

/-- **The server parses the frames of the invocations and no others**, each header with its own
payload, however the stream is cut; and an invocation that has sent all has sent its frames. -/
structure FramesIntact (w : Shared ι) : Prop where
  parsed : ∀ segments : List (List UInt8), segments.flatten = wireBytes w.wire →
    parsedFrames ((receiveLoop servingEnv).run (.start segments)) = (sent w.wire).map Prod.snd
  own : ∀ i, sentBy i w.wire <+: (hooks i).frames M
  all : ∀ i, w.pending i = [] → sentBy i w.wire = (hooks i).frames M

variable {M hooks answer} {wire : List (ι × Part)} {i j : ι} {part : Part}

omit [DecidableEq ι] in
theorem sent_concat : sent (wire ++ [(i, part)]) =
    sent wire ++ part.completes.toList.map fun f => (i, f) := by
  rw [sent, List.filterMap_append]
  cases hpart : part.completes with
  | none => simp [sent, hpart]
  | some f => simp [sent, hpart]

theorem sentBy_concat_self : sentBy i (wire ++ [(i, part)]) =
    sentBy i wire ++ part.completes.toList := by
  rw [sentBy, sent_concat, List.filter_append, List.map_append]
  cases part.completes <;> simp [sentBy]

theorem sentBy_concat_of_ne (h : j ≠ i) : sentBy j (wire ++ [(i, part)]) = sentBy j wire := by
  rw [sentBy, sent_concat, List.filter_append, List.map_append]
  cases part.completes <;> simp [sentBy, h.symm]

theorem mem_sentBy {f : Frame} : f ∈ sentBy i wire ↔ (i, f) ∈ sent wire := by
  simp [sentBy]

omit [DecidableEq ι] in
theorem mem_sentEnds {f : Frame} : (i, f) ∈ sentEnds wire ↔ (i, f) ∈ sent wire ∧ f.IsEnd := by
  simp [sentEnds]

/-! ## Sends that respect the frames of others -/

/-- The invocation has sent a header and not yet the payload that belongs to it. -/
def MidFrame (pending : ι → List Part) (i : ι) : Prop := ∃ f rest, pending i = .payload f :: rest

/-- What an invocation has still to send: whole frames, behind the payload of a frame whose header
has been sent. -/
def CutAtPart (pending : List Part) : Prop :=
  ∃ fs : List Frame, pending = fs.flatMap Frame.parts ∨
    ∃ f : Frame, f.payload ≠ [] ∧ pending = .payload f :: fs.flatMap Frame.parts

variable (M hooks) in
/-- The parts sent and those pending make up the hooks' frames, and the wire is the frames sent in
full, behind them the header of the one invocation that is inside a frame. -/
structure SendInv (pending : ι → List Part) (wire : List (ι × Part)) : Prop where
  conserve : ∀ i, sentBy i wire ++ (pending i).filterMap Part.completes = (hooks i).frames M
  cut : ∀ i, CutAtPart (pending i)
  stream : (∀ i, ¬ MidFrame pending i) ∧
      wireBytes wire = (sent wire).flatMap (fun s => s.2.toBytes) ∨
    ∃ i f rest, pending i = .payload f :: rest ∧ f.payload ≠ [] ∧
      (∀ j, j ≠ i → ¬ MidFrame pending j) ∧
      wireBytes wire = (sent wire).flatMap (fun s => s.2.toBytes) ++ f.header.toBytes

theorem parts_ne_payload {fs : List Frame} {f : Frame} {rest : List Part} :
    fs.flatMap Frame.parts ≠ .payload f :: rest := by
  cases fs with
  | nil => exact fun h => by cases h
  | cons g gs => exact fun h => by cases h

theorem SendInv.start : SendInv M hooks (fun i => (hooks i).parts M) [] := by
  refine ⟨fun i => ?_, fun i => ⟨(hooks i).frames M, Or.inl rfl⟩, Or.inl ⟨fun i hmid => ?_, rfl⟩⟩
  · exact (hooks i).parts_completes M
  · obtain ⟨f, rest, hpending⟩ := hmid
    exact parts_ne_payload hpending

/-- What the next part of an invocation can be, and what is left behind it. -/
theorem CutAtPart.next {rest : List Part} (h : CutAtPart (part :: rest)) :
    ∃ (f : Frame) (fs : List Frame),
      (part = .header f ∧ f.payload = [] ∧ rest = fs.flatMap Frame.parts) ∨
      (part = .header f ∧ f.payload ≠ [] ∧ rest = .payload f :: fs.flatMap Frame.parts) ∨
      (part = .payload f ∧ f.payload ≠ [] ∧ rest = fs.flatMap Frame.parts) := by
  obtain ⟨fs, hwhole | ⟨f, hpayload, hinside⟩⟩ := h
  · rcases fs with - | ⟨f, fs⟩
    · cases hwhole
    · rw [List.flatMap_cons, Frame.parts, List.cons_append] at hwhole
      obtain ⟨rfl, hrest⟩ := List.cons.inj hwhole
      by_cases hpayload : f.payload = []
      · rw [if_pos hpayload, List.nil_append] at hrest
        exact ⟨f, fs, Or.inl ⟨rfl, hpayload, hrest⟩⟩
      · rw [if_neg hpayload, List.singleton_append] at hrest
        exact ⟨f, fs, Or.inr (Or.inl ⟨rfl, hpayload, hrest⟩)⟩
  · obtain ⟨rfl, hrest⟩ := List.cons.inj hinside
    exact ⟨f, fs, Or.inr (Or.inr ⟨rfl, hpayload, hrest⟩)⟩

omit [DecidableEq ι] in
theorem wireBytes_concat : wireBytes (wire ++ [(i, part)]) = wireBytes wire ++ part.bytes := by
  rw [wireBytes, List.flatMap_append, List.flatMap_singleton, wireBytes]

theorem not_midFrame_update {pending : ι → List Part} {rest : List Part}
    (hothers : ∀ j, j ≠ i → ¬ MidFrame pending j) (hne : j ≠ i) :
    ¬ MidFrame (Function.update pending i rest) j := by
  rw [MidFrame, Function.update_of_ne hne]
  exact hothers j hne

/-- After a send that leaves whole frames nobody is inside one. -/
theorem not_midFrame_of_whole {pending : ι → List Part} {fs : List Frame}
    (hothers : ∀ j, j ≠ i → ¬ MidFrame pending j) (j : ι) :
    ¬ MidFrame (Function.update pending i (fs.flatMap Frame.parts)) j := by
  by_cases hj : j = i
  · rintro ⟨g, tail, hmid⟩
    rw [hj, Function.update_self] at hmid
    exact parts_ne_payload hmid
  · exact not_midFrame_update hothers hj

theorem CutAtPart.tail {rest : List Part} (h : CutAtPart (part :: rest)) : CutAtPart rest := by
  obtain ⟨f, fs, ⟨-, -, hrest⟩ | ⟨-, hpayload, hrest⟩ | ⟨-, -, hrest⟩⟩ := h.next
  · exact ⟨fs, Or.inl hrest⟩
  · exact ⟨fs, Or.inr ⟨f, hpayload, hrest⟩⟩
  · exact ⟨fs, Or.inl hrest⟩

section

variable {pending : ι → List Part} {rest : List Part}

/-- A send moves a part from what is pending to what has been sent. -/
theorem SendInv.conserve_send (h : SendInv M hooks pending wire)
    (hpending : pending i = part :: rest) (j : ι) :
    sentBy j (wire ++ [(i, part)]) ++
        (Function.update pending i rest j).filterMap Part.completes = (hooks j).frames M := by
  have hkeep := h.conserve j
  by_cases hj : j = i
  · subst hj
    rw [hpending, List.filterMap_cons] at hkeep
    rw [sentBy_concat_self, Function.update_self, List.append_assoc, ← hkeep]
    cases part.completes <;> rfl
  · rw [sentBy_concat_of_ne hj, Function.update_of_ne hj]
    exact hkeep

/-- When the next part is a header, the wire holds whole frames only. -/
theorem SendInv.wireBytes_of_header (h : SendInv M hooks pending wire) {f : Frame}
    (hpending : pending i = .header f :: rest) (hothers : ∀ j, j ≠ i → ¬ MidFrame pending j) :
    wireBytes wire = (sent wire).flatMap fun s => s.2.toBytes := by
  rcases h.stream with ⟨-, hbytes⟩ | ⟨i', g, tail, hinside, -, -, -⟩
  · exact hbytes
  · by_cases hi : i' = i
    · rw [hi, hpending] at hinside
      cases hinside
    · exact absurd ⟨g, tail, hinside⟩ (hothers i' hi)

/-- When the next part is a payload, the wire ends in its header. -/
theorem SendInv.wireBytes_of_payload (h : SendInv M hooks pending wire) {f : Frame}
    (hpending : pending i = .payload f :: rest) (hothers : ∀ j, j ≠ i → ¬ MidFrame pending j) :
    wireBytes wire = (sent wire).flatMap (fun s => s.2.toBytes) ++ f.header.toBytes := by
  rcases h.stream with ⟨hnobody, -⟩ | ⟨i', g, tail, hinside, -, -, hbytes⟩
  · exact absurd ⟨f, rest, hpending⟩ (hnobody i)
  · have hi : i' = i := by
      by_contra hne
      exact hothers i' hne ⟨g, tail, hinside⟩
    rw [hi, hpending] at hinside
    obtain ⟨hpart, -⟩ := List.cons.inj hinside
    rw [hbytes, Part.payload.inj hpart]

/-- **One send**, when no other invocation is inside a frame. -/
theorem SendInv.send (h : SendInv M hooks pending wire) (hpending : pending i = part :: rest)
    (hothers : ∀ j, j ≠ i → ¬ MidFrame pending j) :
    SendInv M hooks (Function.update pending i rest) (wire ++ [(i, part)]) := by
  have hcut : CutAtPart (part :: rest) := hpending ▸ h.cut i
  refine ⟨h.conserve_send hpending, fun j => ?_, ?_⟩
  · by_cases hj : j = i
    · rw [hj, Function.update_self]
      exact hcut.tail
    · rw [Function.update_of_ne hj]
      exact h.cut j
  · -- the sender is inside a frame afterwards exactly when it has sent the header of a payload
    rw [wireBytes_concat, sent_concat, List.flatMap_append]
    obtain ⟨f, fs, ⟨rfl, hpayload, rfl⟩ | ⟨rfl, hpayload, rfl⟩ | ⟨rfl, hpayload, rfl⟩⟩ := hcut.next
    · refine Or.inl ⟨not_midFrame_of_whole hothers, ?_⟩
      rw [h.wireBytes_of_header hpending hothers, Part.completes, if_pos hpayload]
      simp [Part.bytes, Frame.toBytes, hpayload]
    · refine Or.inr ⟨i, f, _, Function.update_self .., hpayload,
        fun j hj => not_midFrame_update hothers hj, ?_⟩
      rw [h.wireBytes_of_header hpending hothers, Part.completes, if_neg hpayload]
      simp [Part.bytes]
    · refine Or.inl ⟨not_midFrame_of_whole hothers, ?_⟩
      rw [h.wireBytes_of_payload hpending hothers]
      simp [Part.bytes, Part.completes, Frame.toBytes]

end

/-! ## What the server parses -/

/-- A frame that has been sent, or is being sent, is a frame of its hook. -/
theorem SendInv.mem_frames {pending : ι → List Part} (h : SendInv M hooks pending wire) {f : Frame}
    (hf : f ∈ sentBy i wire ∨ ∃ rest, pending i = .payload f :: rest) :
    f ∈ (hooks i).frames M := by
  rw [← h.conserve i, List.mem_append]
  rcases hf with hf | ⟨rest, hrest⟩
  · exact Or.inl hf
  · right
    rw [hrest]
    exact List.mem_filterMap.mpr ⟨.payload f, List.mem_cons_self, rfl⟩

/-- The server shows the frames sent in full, their dumps and their replies. -/
theorem SendInv.shows {pending : ι → List Part} (h : SendInv M hooks pending wire)
    {segments : List (List UInt8)} (hsegments : segments.flatten = wireBytes wire) :
    Shows ((receiveLoop servingEnv).run (.start segments)) ((sent wire).map Prod.snd)
      (frameDumps ((sent wire).map Prod.snd)) (frameReplies ((sent wire).map Prod.snd)) := by
  have hsound : ∀ f ∈ (sent wire).map Prod.snd, f.Complete ∧ f.Accepted := by
    intro f hf
    obtain ⟨⟨i, g⟩, hmem, rfl⟩ := List.mem_map.mp hf
    exact (hooks i).frames_sound g (h.mem_frames (Or.inl (mem_sentBy.mpr hmem)))
  have hbytes : (sent wire).flatMap (fun s => s.2.toBytes) =
      ((sent wire).map Prod.snd).flatMap Frame.toBytes := by
    rw [List.flatMap_map]
  rcases h.stream with ⟨-, hwire⟩ | ⟨i, f, rest, hinside, hpayload, -, hwire⟩
  · refine run_shows (fun _ _ => rfl) (fun _ => rfl) hsound (Or.inl rfl) ?_
    rw [hsegments, hwire, hbytes, List.append_nil]
  · obtain ⟨hcomplete, haccepted⟩ :=
      (hooks i).frames_sound f (h.mem_frames (Or.inr ⟨rest, hinside⟩))
    refine run_shows (fun _ _ => rfl) (fun _ => rfl) hsound
      (Or.inr ⟨f, hcomplete, haccepted, hpayload, rfl⟩) ?_
    rw [hsegments, hwire, hbytes]

/-- **The frames are intact.** -/
theorem SendInv.framesIntact {w : Shared ι} (h : SendInv M hooks w.pending w.wire) :
    FramesIntact M hooks w where
  parsed _ hsegments := (h.shows hsegments).parsedFrames
  own i := ⟨_, h.conserve i⟩
  all i hsent := by
    have hkeep := h.conserve i
    rwa [hsent, List.filterMap_nil, List.append_nil] at hkeep

/-- The server has sent one reply for each end frame sent in full. -/
theorem SendInv.replies_length {pending : ι → List Part} (h : SendInv M hooks pending wire) :
    (replies (serverEvents wire)).length = (sentEnds wire).length := by
  have hsegments : (wire.map fun s => s.2.bytes).flatten = wireBytes wire :=
    List.flatMap_def.symm
  rw [serverEvents, (h.shows hsegments).replies, frameReplies, List.length_map, sentEnds,
    List.filter_map, List.length_map]
  rfl

end LsmFork
