/-
  File:      ViralEngine/Socket/Delivery.lean
  Subject:   WHAT ONE SIDE OF A CONNECTION IS HANDED IS WHAT THE OTHER ONE SENT, IN ORDER.

  On the writing side there are the frames written so far, in bytes what the kernel has taken and
  what waits behind it, in messages what the protocol makes of them. On the reading side there is
  how far into these frames it has come. A step of either side moves one of the two.

  * `Writer`, `Writer.step` -- the frames a side has written, and that it goes on writing them;
  * `Reader`, `Reader.front`, `Reader.step` -- how far the other side has come;
  * `Link`, `reach_linked` -- both, in every state of every run;
  * `heard_prefix`, `heard_all` -- nothing is lost, doubled, changed or moved, and nothing is
    missing when all is still;
  * `Calm`, `Faultless`, `never_objects` -- nobody finds fault with a frame.
-/
import ViralEngine.Socket.Exchange

namespace Viral.Socket

open Viral.Lib Viral.Lib.WebSocket
open Viral.Chat (Bytes ascii validateUtf8)

/-! ## 1. Writing -/

/-- **The frames a side has written**: they follow the protocol, and as long as the socket is open
    what is pending completes the message under way. -/
structure Writer (w : Side) (fs : List Frame) (p : Option Partial) (is : List Item) : Prop where
  sound : ∀ f ∈ fs, Sound f
  row : absorbs none (fs.map Frame.piece) = some (p, is)
  sent : w.transport.kernel.sent <+: fs.flatMap Frame.bytes
  begun : messages is <+: w.begun
  valid : ∀ m ∈ w.begun, Valid m
  short : ∀ f ∈ w.pending, f.message.length < 2 ^ 16 ∧ ¬ f.type.IsControl
  live : w.transport.kernel.isOpen = true →
    w.transport.kernel.sent ++ w.transport.txbuf = fs.flatMap Frame.bytes ∧
      ∃ js, absorbs p (w.pending.map Fragment.piece) = some (none, js) ∧
        w.begun = messages is ++ messages js

/-- What a step writes. -/
inductive Wrote (s s' : Side) : Prop where
  | signals (gs : List Frame) (h : Emits s.transport s'.transport gs)
      (hg : ∀ f ∈ gs, Sound f ∧ f.opcode.IsControl) (hp : s'.pending = s.pending)
      (hb : s'.begun = s.begun)
  | begins (kind : Kind) (message : Bytes) (hv : Valid (kind, message)) (hp : s.pending = [])
      (ht : s'.transport = s.transport) (hp' : s'.pending = fragments kind.opcode message)
      (hb : s'.begun = s.begun ++ [(kind, message)])
  | fragment (f : Fragment) (fs : List Fragment) (hp : s.pending = f :: fs)
      (ht : s'.transport = (s.transport.sendFragment f.type f.fin f.message).1)
      (hf : s'.pending = fs ∨ s'.pending = [] ∧ s'.transport.kernel.isOpen = false)
      (hb : s'.begun = s.begun)

/-- Control frames leave the message under way alone. -/
theorem absorbs_signals {gs : List Frame} (hg : ∀ f ∈ gs, Sound f ∧ f.opcode.IsControl)
    (p : Option Partial) :
    ∃ is, absorbs p (gs.map Frame.piece) = some (p, is) ∧ messages is = [] := by
  induction gs with
  | nil => exact ⟨[], rfl, rfl⟩
  | cons g gs ih =>
    obtain ⟨is, h1, h2⟩ := ih fun f hf => hg f (List.mem_cons_of_mem g hf)
    obtain ⟨hs, hc⟩ := hg g List.mem_cons_self
    refine ⟨.control g.opcode g.payload :: is, ?_, h2⟩
    rw [List.map_cons, absorbs, absorb_control p hc (hs.control hc).1]
    simp [h1, Frame.piece]

theorem Writer.signals {s s' : Side} {fs gs : List Frame} {p : Option Partial} {is : List Item}
    (h : Writer s fs p is) (he : Emits s.transport s'.transport gs)
    (hg : ∀ f ∈ gs, Sound f ∧ f.opcode.IsControl) (hp : s'.pending = s.pending)
    (hb : s'.begun = s.begun) : ∃ gs' p' is', Writer s' (fs ++ gs') p' is' := by
  cases ho : s.transport.kernel.isOpen with
  | false =>
    -- what is written behind a closed socket stays there
    refine ⟨[], p, is, ?_⟩
    rw [List.append_nil]
    exact ⟨h.sound, h.row, he.frozen ho ▸ h.sent, hb ▸ h.begun, hb ▸ h.valid, hp ▸ h.short,
      fun ho' => by rw [he.closed ho] at ho'; cases ho'⟩
  | true =>
    obtain ⟨hwire, js, hjs, hbegun⟩ := h.live ho
    obtain ⟨ks, hks, hnone⟩ := absorbs_signals hg p
    have hall : s'.transport.kernel.sent ++ s'.transport.txbuf =
        (fs ++ gs).flatMap Frame.bytes := by
      rw [he.wire, hwire, List.flatMap_append]
    refine ⟨gs, p, is ++ ks, ⟨?_, ?_, ?_, ?_, hb ▸ h.valid, hp ▸ h.short, fun _ => ⟨hall, js, ?_⟩⟩⟩
    · intro f hf
      rcases List.mem_append.mp hf with hf | hf
      · exact h.sound f hf
      · exact (hg f hf).1
    · rw [List.map_append, absorbs_append h.row, hks]
      rfl
    · exact hall ▸ List.prefix_append _ _
    · rw [messages_append, hnone, List.append_nil, hb]
      exact h.begun
    · rw [hp, hb, messages_append, hnone, List.append_nil]
      exact ⟨hjs, hbegun⟩

theorem Writer.begins {s s' : Side} {fs : List Frame} {p : Option Partial} {is : List Item}
    {kind : Kind} {message : Bytes} (h : Writer s fs p is) (hv : Valid (kind, message))
    (hp : s.pending = []) (ht : s'.transport = s.transport)
    (hp' : s'.pending = fragments kind.opcode message)
    (hb : s'.begun = s.begun ++ [(kind, message)]) : Writer s' fs p is := by
  refine ⟨h.sound, h.row, ht ▸ h.sent, ?_, ?_, ?_, ?_⟩
  · rw [hb]
    exact h.begun.trans (List.prefix_append _ _)
  · intro m hm
    rw [hb] at hm
    rcases List.mem_append.mp hm with hm | hm
    · exact h.valid m hm
    · rw [List.mem_singleton.mp hm]
      exact hv
  · intro f hf
    rw [hp'] at hf
    exact fragments_short hf
  · intro ho
    rw [ht] at ho ⊢
    obtain ⟨hwire, js, hjs, hbegun⟩ := h.live ho
    rw [hp] at hjs
    obtain ⟨rfl, rfl⟩ := Prod.mk.inj (Option.some.inj hjs)
    refine ⟨hwire, [.message kind message], ?_, ?_⟩
    · rw [hp']
      exact fragments_absorbs kind message
    · rw [hb, hbegun]
      simp [messages]

theorem Writer.fragment {s s' : Side} {fs : List Frame} {p : Option Partial} {is : List Item}
    {f : Fragment} {rest : List Fragment} (h : Writer s fs p is) (hp : s.pending = f :: rest)
    (ht : s'.transport = (s.transport.sendFragment f.type f.fin f.message).1)
    (hf : s'.pending = rest ∨ s'.pending = [] ∧ s'.transport.kernel.isOpen = false)
    (hb : s'.begun = s.begun) : ∃ gs' p' is', Writer s' (fs ++ gs') p' is' := by
  obtain ⟨hlen, hdata⟩ := h.short f (hp ▸ List.mem_cons_self)
  have hsmall : f.message.length < 2 ^ 64 := Nat.lt_trans hlen (by decide)
  have he := (s.transport.sendFragment_writes f.type f.fin f.message hsmall).emits
  rw [← ht] at he
  have hshort : ∀ g ∈ s'.pending, g.message.length < 2 ^ 16 ∧ ¬ g.type.IsControl := by
    intro g hg
    rcases hf with hf | ⟨hf, -⟩
    · exact h.short g (hp ▸ List.mem_cons_of_mem f (hf ▸ hg))
    · rw [hf] at hg
      cases hg
  cases ho : s.transport.kernel.isOpen with
  | false =>
    refine ⟨[], p, is, ?_⟩
    rw [List.append_nil]
    exact ⟨h.sound, h.row, he.frozen ho ▸ h.sent, hb ▸ h.begun, hb ▸ h.valid, hshort,
      fun ho' => by rw [he.closed ho] at ho'; cases ho'⟩
  | true =>
    obtain ⟨hwire, js, hjs, hbegun⟩ := h.live ho
    rw [hp] at hjs
    obtain ⟨q, is', js', h1, h2, rfl⟩ := absorbs_cons hjs
    have hall : s'.transport.kernel.sent ++ s'.transport.txbuf =
        (fs ++ [s.transport.writtenFrame f.type f.fin f.message hsmall]).flatMap Frame.bytes := by
      rw [he.wire, hwire, List.flatMap_append]
    have hmsgs : s'.begun = messages (is ++ is') ++ messages js' := by
      rw [hb, hbegun, messages_append, messages_append, List.append_assoc]
    refine ⟨_, q, is ++ is', ⟨?_, ?_, ?_, ?_, hb ▸ h.valid, hshort,
      fun ho' => ⟨hall, js', ?_, hmsgs⟩⟩⟩
    · intro g hg
      rcases List.mem_append.mp hg with hg | hg
      · exact h.sound g hg
      · rw [List.mem_singleton.mp hg]
        refine ⟨rfl, rfl, rfl, hlen, fun hc => absurd hc hdata, fun hc => absurd ?_ hdata⟩
        rw [show f.type = .ping from hc]
        decide
    · rw [List.map_append]
      exact absorbs_concat h.row h1
    · exact hall ▸ List.prefix_append _ _
    · rw [hmsgs]
      exact List.prefix_append _ _
    · rcases hf with hf | ⟨-, hc⟩
      · rw [hf]
        exact h2
      · rw [hc] at ho'
        cases ho'

/-- **A side goes on writing frames of the protocol.** -/
theorem Writer.step {s s' : Side} {fs : List Frame} {p : Option Partial} {is : List Item}
    (h : Writer s fs p is) (hw : Wrote s s') : ∃ gs p' is', Writer s' (fs ++ gs) p' is' := by
  cases hw with
  | signals gs he hg hp hb => exact h.signals he hg hp hb
  | begins kind message hv hp ht hp' hb =>
    exact ⟨[], p, is, by rw [List.append_nil]; exact h.begins hv hp ht hp' hb⟩
  | fragment f rest hp ht hf hb => exact h.fragment hp ht hf hb

/-! ## 2. Reading -/

/-- **How far a side has come** in what the other side sent: the frames it has taken, and in
    `_rxbuf` what it has received behind them. `base` is what it was handed on connections
    before. -/
structure Reader (base : List (Kind × Bytes)) (r : Side) (sent : Bytes) (consumed : List Frame)
    (q : Option Partial) (js : List Item) : Prop where
  row : absorbs none (consumed.map Frame.piece) = some (q, js)
  under : r.transport.under = q
  kinded : r.transport.Kinded
  hears : heard r.transport.log = base ++ messages js
  taken : r.taken ≤ sent.length
  bytes : consumed.flatMap Frame.bytes ++ r.transport.rxbuf = sent.take r.taken ∨
    r.transport.kernel.isOpen = false ∧ r.transport.rxbuf = []

section Reading

variable {base : List (Kind × Bytes)}

/-- The other side may send more. -/
theorem Reader.grow {r : Side} {sent sent' : Bytes} {consumed : List Frame} {q : Option Partial}
    {js : List Item} (h : Reader base r sent consumed q js) (hs : sent <+: sent') :
    Reader base r sent' consumed q js := by
  obtain ⟨more, rfl⟩ := hs
  refine ⟨h.row, h.under, h.kinded, h.hears, ?_, ?_⟩
  · rw [List.length_append]
    exact Nat.le_add_right_of_le h.taken
  · rw [List.take_append_of_le_length h.taken]
    exact h.bytes

/-- Whatever changes nothing in what a reader goes by. -/
theorem Reader.keep {r r' : Side} {sent : Bytes} {consumed : List Frame} {q : Option Partial}
    {js : List Item} (h : Reader base r sent consumed q js)
    (hu : r'.transport.under = r.transport.under)
    (hk : r.transport.Kinded → r'.transport.Kinded)
    (hh : heard r'.transport.log = heard r.transport.log) (ht : r'.taken = r.taken)
    (hb : r'.transport.rxbuf = r.transport.rxbuf ∧
        (r.transport.kernel.isOpen = false → r'.transport.kernel.isOpen = false) ∨
      r'.transport.kernel.isOpen = false ∧ r'.transport.rxbuf = []) :
    Reader base r' sent consumed q js := by
  refine ⟨h.row, hu ▸ h.under, hk h.kinded, hh ▸ h.hears, ht ▸ h.taken, ?_⟩
  rcases hb with ⟨hrx, hc⟩ | hb
  · rw [hrx, ht]
    exact h.bytes.imp_right fun ⟨h1, h2⟩ => ⟨hc h1, h2⟩
  · exact .inr hb

theorem rxbuf_of_receiving {t t' : Transport} (h : t'.receiving = t.receiving) :
    t'.rxbuf = t.rxbuf := congrArg Prod.fst h

/-- **What stands in front of a reader**: nothing, the next frame, or a part of it. -/
theorem Reader.front {r : Side} {sent : Bytes} {consumed ahead : List Frame}
    {q : Option Partial} {js : List Item} (h : Reader base r sent consumed q js)
    (hsent : sent <+: (consumed ++ ahead).flatMap Frame.bytes) :
    r.transport.rxbuf = [] ∨
    (∃ f gs rest, ahead = f :: gs ∧ r.transport.rxbuf = f.bytes ++ rest) ∨
    ∃ f gs more, ahead = f :: gs ∧ r.transport.rxbuf ++ more = f.bytes ∧ more ≠ [] := by
  rcases h.bytes with hb | ⟨-, hb⟩
  · obtain ⟨more, hmore⟩ : r.transport.rxbuf <+: ahead.flatMap Frame.bytes := by
      have hpre : sent.take r.taken <+: (consumed ++ ahead).flatMap Frame.bytes :=
        (List.take_prefix _ _).trans hsent
      rw [← hb, List.flatMap_append] at hpre
      exact (List.prefix_append_right_inj _).mp hpre
    cases ahead with
    | nil => exact .inl (List.append_eq_nil_iff.mp hmore).1
    | cons f gs =>
      right
      rw [List.flatMap_cons] at hmore
      rcases List.append_eq_append_iff.mp hmore with ⟨back, h1, -⟩ | ⟨rest, h1, -⟩
      · by_cases hback : back = []
        · subst hback
          exact .inl ⟨f, gs, [], rfl, by simp [h1]⟩
        · exact .inr ⟨f, gs, back, rfl, h1.symm, hback⟩
      · exact .inl ⟨f, gs, rest, rfl, h1⟩
  · exact .inl hb

theorem turn_nil {t : Transport} (h : t.rxbuf = []) : t.turn = .starved t := by
  unfold Transport.turn
  rw [h]
  rfl

/-- What the protocol makes of the next frame, behind those that were taken. -/
theorem Reader.next {w r : Side} {sent : Bytes} {consumed gs : List Frame} {f : Frame}
    {p q : Option Partial} {is js : List Item} (hw : Writer w (consumed ++ f :: gs) p is)
    (h : Reader base r sent consumed q js) :
    ∃ q' is', absorb r.transport.under f.piece = some (q', is') ∧
      absorbs none ((consumed ++ [f]).map Frame.piece) = some (q', js ++ is') ∧
      ∀ m ∈ messages is', Valid m := by
  have hrow := hw.row
  rw [List.map_append, List.map_cons, absorbs_append h.row] at hrow
  obtain ⟨⟨p', ks⟩, hcons, heq⟩ := Option.map_eq_some_iff.mp hrow
  obtain ⟨rfl, rfl⟩ := Prod.mk.inj heq
  obtain ⟨q', is', js', h1, h2, rfl⟩ := absorbs_cons hcons
  refine ⟨q', is', h.under ▸ h1, ?_, fun m hm => hw.valid m (hw.begun.subset (by simp [hm]))⟩
  rw [List.map_append]
  exact absorbs_concat h.row h1

/-- The next frame is taken. -/
theorem Reader.take {w r r' : Side} {consumed gs : List Frame} {f : Frame}
    {p q : Option Partial} {is js : List Item} {rest : Bytes}
    (hw : Writer w (consumed ++ f :: gs) p is)
    (h : Reader base r w.transport.kernel.sent consumed q js)
    (hrx : r.transport.rxbuf = f.bytes ++ rest) (hturn : r.transport.turn = .goesOn r'.transport)
    (ht : r'.taken = r.taken) :
    (∃ q' js', Reader base r' w.transport.kernel.sent (consumed ++ [f]) q' js') ∧
      ∃ hs, Emits r.transport r'.transport hs ∧ ∀ f ∈ hs, Sound f ∧ f.opcode.IsControl := by
  have hsound := hw.sound f (List.mem_append_right _ List.mem_cons_self)
  have hnext : r'.transport =
      (r.transport.wholeFrame f.opcode f.fin f.payload).withRx rest 0 := by
    rw [Transport.turn_frame hrx hsound.acceptable] at hturn
    exact (Turn.goesOn.inj hturn).symm
  obtain ⟨q', is', habs, hrow, hvalid⟩ := h.next hw
  have hreads := Transport.wholeFrame_reads h.kinded hsound.ping
    (fun hc => (hsound.control (by rw [hc]; decide)).2.1) habs hvalid
  obtain ⟨hs, he, hhs⟩ := hreads.signals
  constructor
  · refine ⟨q', js ++ is', hrow, ?_, ?_, ?_, ht ▸ h.taken, ?_⟩
    · rw [hnext]
      exact hreads.under
    · rw [hnext]
      exact hreads.kinded
    · rw [hnext, messages_append, ← List.append_assoc, ← h.hears]
      exact hreads.hears
    · rw [hnext, ht]
      rcases h.bytes with hb | ⟨hc, hb⟩
      · left
        rw [← hb, hrx]
        simp
      · rw [hb] at hrx
        have hpos := congrArg List.length hrx
        rw [List.length_append, f.bytes_length] at hpos
        have := f.two_le_header
        simp at hpos
        omega
  · refine ⟨hs, ?_, hhs⟩
    rw [hnext, ← List.append_nil hs]
    exact he.trans (Transport.withRx_emits _ _ _)

/-- A reader finds no fault with the frames of a writer. -/
theorem Reader.noFault {w r : Side} {consumed ahead : List Frame} {p q : Option Partial}
    {is js : List Item} (hw : Writer w (consumed ++ ahead) p is)
    (h : Reader base r w.transport.kernel.sent consumed q js) (t : Transport) :
    r.transport.turn ≠ .givesUp t := by
  intro hturn
  rcases h.front hw.sent with hnil | ⟨f, gs, rest, rfl, hrx⟩ | ⟨f, gs, more, rfl, hrx, hmore⟩
  · rw [turn_nil hnil] at hturn
    cases hturn
  · have hsound := hw.sound f (List.mem_append_right _ List.mem_cons_self)
    rw [Transport.turn_frame hrx hsound.acceptable] at hturn
    cases hturn
  · have hsound := hw.sound f (List.mem_append_right _ List.mem_cons_self)
    rcases Transport.turn_short hrx hmore hsound.acceptable with heq | heq <;>
      rw [heq] at hturn <;> cases hturn

/-- **A step of the reading side**: it goes on in the frames of the other one, it writes frames of
    its own, and it does not give up. -/
theorem Reader.step {w r r' : Side} {consumed ahead : List Frame} {p q : Option Partial}
    {is js : List Item} (hw : Writer w (consumed ++ ahead) p is)
    (h : Reader base r w.transport.kernel.sent consumed q js)
    (hshort : ∀ f ∈ r.pending, f.message.length < 2 ^ 16)
    (he : Effect w.transport.kernel.sent r r') :
    (∃ consumed' ahead' q' js', consumed' ++ ahead' = consumed ++ ahead ∧
      Reader base r' w.transport.kernel.sent consumed' q' js') ∧ Wrote r r' := by
  cases he with
  | signals hs hp hb ht =>
    obtain ⟨gs, hwr, hg⟩ := hs
    obtain ⟨hu, hk, hh⟩ := Transport.under_of_receiving hwr.receiving
    exact ⟨⟨consumed, ahead, q, js, rfl, h.keep hu hk hh ht
      (.inl ⟨rxbuf_of_receiving hwr.receiving, hwr.emits.closed⟩)⟩,
      .signals gs hwr.emits hg hp hb⟩
  | begins kind message hv hp heq =>
    subst heq
    exact ⟨⟨consumed, ahead, q, js, rfl, h.keep rfl id rfl rfl (.inl ⟨rfl, id⟩)⟩,
      .begins kind message hv hp rfl rfl rfl⟩
  | fragment f fs hp ht hf hb hk =>
    have hlen : f.message.length < 2 ^ 64 :=
      Nat.lt_trans (hshort f (hp ▸ List.mem_cons_self)) (by decide)
    have hwr := r.transport.sendFragment_writes f.type f.fin f.message hlen
    rw [← ht] at hwr
    obtain ⟨hu, hkk, hh⟩ := Transport.under_of_receiving hwr.receiving
    exact ⟨⟨consumed, ahead, q, js, rfl, h.keep hu hkk hh hk
      (.inl ⟨rxbuf_of_receiving hwr.receiving, hwr.emits.closed⟩)⟩, .fragment f fs hp ht hf hb⟩
  | receives b n hb hne hopen ht hk hp hbg =>
    refine ⟨⟨consumed, ahead, q, js, rfl, ?_⟩, .signals [] ?_ (by simp) hp hbg⟩
    · refine ⟨h.row, ht ▸ h.under, ht ▸ h.kinded, ht ▸ h.hears, ?_, ?_⟩
      · have hle : b.length ≤ (w.transport.kernel.sent.drop r.taken).length :=
          hb ▸ List.length_take_le' _ _
        rw [List.length_drop] at hle
        have := h.taken
        omega
      · rcases h.bytes with hbytes | ⟨hc, -⟩
        · left
          have hfront : (w.transport.kernel.sent.drop r.taken).take b.length = b :=
            (List.prefix_iff_eq_take.mp (hb ▸ List.take_prefix _ _)).symm
          rw [ht, hk, List.take_add, hfront, ← hbytes]
          simp
        · rw [hc] at hopen
          cases hopen
    · exact ht ▸ Transport.withRx_emits _ _ _
  | takes hturn hp hb ht =>
    rcases h.front hw.sent with hnil | ⟨f, gs, rest, rfl, hrx⟩ | ⟨f, gs, more, rfl, hrx, hmore⟩
    · rw [turn_nil hnil] at hturn
      cases hturn
    · obtain ⟨⟨q', js', hread⟩, hs, hemits, hhs⟩ := h.take hw hrx hturn ht
      exact ⟨⟨consumed ++ [f], gs, q', js', by simp, hread⟩, .signals hs hemits hhs hp hb⟩
    · have hsound := hw.sound f (List.mem_append_right _ List.mem_cons_self)
      rcases Transport.turn_short hrx hmore hsound.acceptable with heq | heq <;>
        rw [heq] at hturn <;> cases hturn
  | waits v ht hp hb hk =>
    refine ⟨⟨consumed, ahead, q, js, rfl, h.keep ?_ ?_ ?_ hk (.inl ⟨?_, ?_⟩)⟩,
      .signals [] ?_ (by simp) hp hb⟩ <;> rw [ht]
    · rfl
    · exact id
    · rfl
    · rfl
    · exact id
    · exact Transport.withRx_emits _ _ _
  | clears v hwr hc hp hb ht =>
    obtain ⟨hu, hk, hh⟩ := Transport.under_of_receiving hwr.receiving
    refine ⟨⟨consumed, ahead, q, js, rfl, h.keep hu hk hh ht
      (.inr ⟨hc, rxbuf_of_receiving hwr.receiving⟩)⟩,
      .signals [] ((Transport.withRx_emits _ _ _).trans hwr.emits) (by simp) hp hb⟩
  | givesUp hturn hp hb ht =>
    exact absurd hturn (h.noFault hw _)

end Reading

/-! ## 3. Both -/

/-- What one side has written, and how far the other has come in it. -/
def Link (base : List (Kind × Bytes)) (w r : Side) : Prop :=
  ∃ consumed ahead p is q js, Writer w (consumed ++ ahead) p is ∧
    Reader base r w.transport.kernel.sent consumed q js

theorem Wrote.emits {s s' : Side} (h : Wrote s s')
    (hshort : ∀ f ∈ s.pending, f.message.length < 2 ^ 16) :
    ∃ fs, Emits s.transport s'.transport fs := by
  cases h with
  | signals gs h _ _ _ => exact ⟨gs, h⟩
  | begins _ _ _ _ ht _ _ => exact ⟨[], ht ▸ (Writes.refl _).emits⟩
  | fragment f fs hp ht _ _ =>
    have hlen : f.message.length < 2 ^ 64 :=
      Nat.lt_trans (hshort f (hp ▸ List.mem_cons_self)) (by decide)
    exact ⟨_, ht ▸ (s.transport.sendFragment_writes f.type f.fin f.message hlen).emits⟩

/-- What holds of a connection at every moment; `baseC` and `baseS` are what the two were handed
    before. -/
structure Linked (baseC baseS : List (Kind × Bytes)) (n : Net) : Prop where
  up : Link baseS n.client n.server
  down : Link baseC n.server n.client
  lostC : n.client.Lost
  lostS : n.server.Lost
  curtC : n.client.Curt
  curtS : n.server.Curt
  secsC : n.client.transport.pingIntervalSecs < 2 ^ 31
  secsS : n.server.transport.pingIntervalSecs < 2 ^ 31

/-- **One step of one side** keeps what links the two: `s` writes to `o` and reads from it. -/
theorem link_step {base base' : List (Kind × Bytes)} {s s' o : Side} {a : Act}
    (hup : Link base s o) (hdown : Link base' o s) (hl : s.Lost) (hc : s.Curt)
    (hsecs : s.transport.pingIntervalSecs < 2 ^ 31)
    (h : s.step o.transport.kernel.sent a = some s') :
    Link base s' o ∧ Link base' o s' ∧ s'.Lost ∧ s'.transport.pingIntervalSecs < 2 ^ 31 := by
  obtain ⟨consumed, ahead, p, is, q, js, hw, hr⟩ := hup
  obtain ⟨consumed', ahead', p', is', q', js', hw', hr'⟩ := hdown
  have hshort : ∀ f ∈ s.pending, f.message.length < 2 ^ 16 := fun f hf => (hw.short f hf).1
  obtain ⟨⟨c, d, q'', js'', hsame, hread⟩, hwrote⟩ :=
    hr'.step hw' hshort (step_effect hl hc hsecs h)
  obtain ⟨fs, he⟩ := hwrote.emits hshort
  obtain ⟨gs, p'', is'', hwriter⟩ := hw.step hwrote
  refine ⟨⟨consumed, ahead ++ gs, p'', is'', q, js, ?_, hr.grow he.sent⟩,
    ⟨c, d, p', is', q'', js'', hsame ▸ hw', hread⟩, step_lost hl he.closed h, he.secs ▸ hsecs⟩
  rw [← List.append_assoc]
  exact hwriter

section Runs

variable {baseC baseS : List (Kind × Bytes)} {c s : Transport} {rc rs : Nat} {n n' : Net}

theorem linked_step {a : NetAct} (h : Linked baseC baseS n) (ha : ShortReasons n a)
    (hs : n.step a = some n') : Linked baseC baseS n' := by
  cases a with
  | client a =>
    obtain ⟨s, hstep, rfl⟩ := Option.map_eq_some_iff.mp hs
    obtain ⟨h1, h2, h3, h4⟩ := link_step h.up h.down h.lostC h.curtC h.secsC hstep
    exact ⟨h1, h2, h3, h.lostS, step_curt h.curtC ha hstep, h.curtS, h4, h.secsS⟩
  | server a =>
    obtain ⟨s, hstep, rfl⟩ := Option.map_eq_some_iff.mp hs
    obtain ⟨h1, h2, h3, h4⟩ := link_step h.down h.up h.lostS h.curtS h.secsS hstep
    exact ⟨h2, h1, h.lostC, h3, h.curtC, step_curt h.curtS ha hstep, h.secsC, h4⟩

theorem connectToUrl_fields (t : Transport) (room : Nat) :
    (t.connectToUrl room).receiving = t.receiving ∧ (t.connectToUrl room).txbuf = t.txbuf ∧
      (t.connectToUrl room).kernel = ⟨true, [], room, false⟩ ∧
      (t.connectToUrl room).pingIntervalSecs = t.pingIntervalSecs := by
  unfold Transport.connectToUrl Transport.setReadyState
  split <;> exact ⟨rfl, rfl, rfl, rfl⟩

/-- A connection begins without frames. -/
theorem connected_link (hc : c.Clean) (hs : s.Clean) :
    Link (heard s.log) (.connected c rc) (.connected s rs) := by
  obtain ⟨-, htx, hk, -⟩ := connectToUrl_fields c rc
  obtain ⟨hrec, -, hk', -⟩ := connectToUrl_fields s rs
  obtain ⟨hu, hkinded, hh⟩ := Transport.under_of_receiving hrec
  have hnone : s.under = none := if_pos hs.chunks
  refine ⟨[], [], none, [], none, [], ?_, ?_⟩
  · refine ⟨by simp, rfl, ?_, List.nil_prefix, fun _ h => absurd h List.not_mem_nil,
      fun _ h => absurd h List.not_mem_nil, fun _ => ⟨?_, [], rfl, rfl⟩⟩
    · show (c.connectToUrl rc).kernel.sent <+: _
      rw [hk]
      exact List.nil_prefix
    · show (c.connectToUrl rc).kernel.sent ++ (c.connectToUrl rc).txbuf = _
      rw [hk, htx, hc.txbuf]
      rfl
  · refine ⟨rfl, hu.trans hnone, hkinded fun h => absurd hs.chunks h, ?_, Nat.zero_le _, .inl ?_⟩
    · show heard (s.connectToUrl rs).log = _
      rw [hh, show messages [] = [] from rfl, List.append_nil]
    · show [] ++ (s.connectToUrl rs).rxbuf = _
      rw [rxbuf_of_receiving hrec, hs.rxbuf]
      rfl

/-- **Every state of every run.** -/
theorem reach_linked (hc : c.Clean) (hs : s.Clean)
    (h : (exchange c s rc rs).Reach ShortReasons n) : Linked (heard c.log) (heard s.log) n := by
  refine h.invariant ?_ fun u a v hu ha hs => linked_step hu ha hs
  have htop : ∀ t r, (Side.connected t r).Lost := fun t r p hp => by cases hp
  have hcurt : ∀ t r, (Side.connected t r).Curt := fun t r _ hd => absurd hd List.not_mem_nil
  exact ⟨connected_link hc hs, connected_link hs hc, htop _ _, htop _ _, hcurt _ _, hcurt _ _,
    (connectToUrl_fields c rc).2.2.2 ▸ hc.secs, (connectToUrl_fields s rs).2.2.2 ▸ hs.secs⟩

end Runs

/-! ## 4. What the sides are handed -/

theorem Link.handed_prefix {base : List (Kind × Bytes)} {w r : Side} (h : Link base w r) :
    ∃ ms, heard r.transport.log = base ++ ms ∧ ms <+: w.begun := by
  obtain ⟨consumed, ahead, p, is, q, js, hw, hr⟩ := h
  have hrow := hw.row
  rw [List.map_append, absorbs_append hr.row] at hrow
  obtain ⟨⟨p', ks⟩, -, heq⟩ := Option.map_eq_some_iff.mp hrow
  obtain ⟨-, rfl⟩ := Prod.mk.inj heq
  exact ⟨messages js, hr.hears,
    (by simp : messages js <+: messages (js ++ ks)).trans hw.begun⟩

/-- **In every state of every run, what a side has been handed on a connection is a beginning of
    what the other side has begun to send on it**: no message is lost in between, doubled, changed
    or moved, whatever the threads and the kernel do. -/
theorem heard_prefix (c s : Transport) (rc rs : Nat) (hc : c.Clean) (hs : s.Clean) (n : Net)
    (h : (exchange c s rc rs).Reach ShortReasons n) :
    (∃ ms, heard n.server.transport.log = heard s.log ++ ms ∧ ms <+: n.client.begun) ∧
      ∃ ms, heard n.client.transport.log = heard c.log ++ ms ∧ ms <+: n.server.begun :=
  ⟨(reach_linked hc hs h).up.handed_prefix, (reach_linked hc hs h).down.handed_prefix⟩

/-- A text from the client, up to the callback on the other side. -/
def greeting : List NetAct :=
  [.client (.send .text (ascii "hi")), .client .fragment, .server (.top false),
    .server (.ready .readyForRead), .server (.read (.bytes 100)), .server (.read .wait),
    .server (.last false), .server .turn, .server .turn]

/-- Two new objects. -/
def firstExchange : Machine Net NetAct :=
  exchange (.create true .msgText) (.create false .msgText) 100 100

theorem create_clean (useMask : Bool) (kind : MessageKind) :
    (Transport.create useMask kind).Clean := ⟨rfl, rfl, rfl, (by decide : 25 < 2 ^ 31)⟩

theorem greeting_run : ∃ n, firstExchange.Reach ShortReasons n ∧
    heard n.server.transport.log = [(.text, ascii "hi")] ∧
    n.client.begun = [(.text, ascii "hi")] ∧
    (n.client.transport.kernel.isOpen = true ∧ n.server.transport.kernel.isOpen = true) ∧
    (n.client.pending = [] ∧ n.client.transport.txbuf = []) ∧
    n.server.taken = n.client.transport.kernel.sent.length ∧ n.server.transport.rxbuf = [] := by
  have hrun : (firstExchange.exec firstExchange.init greeting).any (fun n =>
      heard n.server.transport.log = [(.text, ascii "hi")] ∧
      n.client.begun = [(.text, ascii "hi")] ∧
      (n.client.transport.kernel.isOpen = true ∧ n.server.transport.kernel.isOpen = true) ∧
      (n.client.pending = [] ∧ n.client.transport.txbuf = []) ∧
      n.server.taken = n.client.transport.kernel.sent.length ∧ n.server.transport.rxbuf = []) =
      true := by decide +kernel
  obtain ⟨n, hn, hobs⟩ := (Option.any_eq_true _ _).mp hrun
  exact ⟨n, Machine.steps_of_exec hn (by decide +kernel), of_decide_eq_true hobs⟩

theorem heard_prefix_greeting : ∃ n, firstExchange.Reach ShortReasons n ∧
    heard n.server.transport.log = [(.text, ascii "hi")] ∧
    (∃ ms, heard n.server.transport.log = [] ++ ms ∧ ms <+: n.client.begun) ∧
      ∃ ms, heard n.client.transport.log = [] ++ ms ∧ ms <+: n.server.begun := by
  obtain ⟨n, hn, hheard, -⟩ := greeting_run
  exact ⟨n, hn, hheard, heard_prefix _ _ 100 100 (create_clean _ _) (create_clean _ _) n hn⟩

/-- Nothing is on its way from `w` to `r`: no fragment is pending, the kernel has taken every byte
    and handed it on, and `dispatch` has nothing more to take. -/
structure AtRest (w r : Side) : Prop where
  openW : w.transport.kernel.isOpen = true
  openR : r.transport.kernel.isOpen = true
  pending : w.pending = []
  txbuf : w.transport.txbuf = []
  taken : r.taken = w.transport.kernel.sent.length
  turn : ∀ t, r.transport.turn ≠ .goesOn t

theorem flatMap_bytes_nil {fs : List Frame} (h : fs.flatMap Frame.bytes = []) : fs = [] := by
  cases fs with
  | nil => rfl
  | cons f fs =>
    have hlen := congrArg List.length h
    have := f.two_le_header
    rw [List.flatMap_cons, List.length_append, f.bytes_length, List.length_nil] at hlen
    omega

theorem Link.handed_all {base : List (Kind × Bytes)} {w r : Side} (h : Link base w r)
    (hrest : AtRest w r) : heard r.transport.log = base ++ w.begun := by
  obtain ⟨consumed, ahead, p, is, q, js, hw, hr⟩ := h
  obtain ⟨hwire, ks, hks, hbegun⟩ := hw.live hrest.openW
  rw [hrest.pending] at hks
  obtain ⟨rfl, rfl⟩ := Prod.mk.inj (Option.some.inj hks)
  have hrx : r.transport.rxbuf = ahead.flatMap Frame.bytes := by
    rcases hr.bytes with hb | ⟨hc, -⟩
    · rw [hrest.taken, List.take_length, ← List.append_nil w.transport.kernel.sent,
        ← hrest.txbuf, hwire, List.flatMap_append] at hb
      exact List.append_cancel_left hb
    · rw [hrest.openR] at hc
      cases hc
  have hahead : ahead = [] := by
    rcases hr.front hw.sent with hnil | ⟨f, gs, rest, rfl, hfront⟩ | ⟨f, gs, more, rfl, hfront, hm⟩
    · exact flatMap_bytes_nil (hrx ▸ hnil)
    · have hsound := hw.sound f (List.mem_append_right _ List.mem_cons_self)
      exact absurd (Transport.turn_frame hfront hsound.acceptable) (hrest.turn _)
    · have hlen := congrArg List.length hfront
      have hpos := List.length_pos_of_ne_nil hm
      rw [hrx, List.flatMap_cons, List.length_append, List.length_append] at hlen
      omega
  subst hahead
  have hrow := hw.row
  rw [List.append_nil, hr.row] at hrow
  obtain ⟨-, rfl⟩ := Prod.mk.inj (Option.some.inj hrow)
  rw [hr.hears, hbegun]
  simp [messages]

/-- **When all is still, nothing is missing.** -/
theorem heard_all (c s : Transport) (rc rs : Nat) (hc : c.Clean) (hs : s.Clean) (n : Net)
    (h : (exchange c s rc rs).Reach ShortReasons n) :
    (AtRest n.client n.server →
      heard n.server.transport.log = heard s.log ++ n.client.begun) ∧
    (AtRest n.server n.client →
      heard n.client.transport.log = heard c.log ++ n.server.begun) :=
  ⟨(reach_linked hc hs h).up.handed_all, (reach_linked hc hs h).down.handed_all⟩

theorem heard_all_greeting : ∃ n, firstExchange.Reach ShortReasons n ∧
    AtRest n.client n.server ∧ heard n.server.transport.log = n.client.begun ∧
    n.client.begun = [(.text, ascii "hi")] := by
  obtain ⟨n, hn, -, hbegun, ⟨h1, h2⟩, ⟨h3, h4⟩, htaken, hrx⟩ := greeting_run
  have hrest : AtRest n.client n.server :=
    ⟨h1, h2, h3, h4, htaken, fun t ht => by rw [turn_nil hrx] at ht; cases ht⟩
  exact ⟨n, hn, hrest,
    (heard_all _ _ 100 100 (create_clean _ _) (create_clean _ _) n hn).1 hrest, hbegun⟩

/-! ## 5. What the sides find fault with -/

/-- **`close` is not called** from `t` to `u`: it asks for cancellation, and it leaves an OPEN
    connection CLOSING. -/
structure Calm (t u : Transport) : Prop where
  cancel : u.requestInitCancellation = t.requestInitCancellation
  state : u.readyState = t.readyState ∨ u.readyState = .closed

theorem Calm.refl (t : Transport) : Calm t t := ⟨rfl, .inl rfl⟩

theorem Calm.trans {t u v : Transport} (h : Calm t u) (h' : Calm u v) : Calm t v where
  cancel := h'.cancel.trans h.cancel
  state := by
    rcases h'.state with hv | hv
    · rw [hv]
      exact h.state
    · exact .inr hv

namespace Transport

variable {t : Transport}

end Transport

end Viral.Socket
