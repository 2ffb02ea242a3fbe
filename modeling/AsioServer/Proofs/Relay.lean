import Mathlib.Data.List.Forall2
import AsioServer.Proofs.Codec
import AsioServer.Ref.Relay

/-!
# Frames through the relay

The page shows what the server sent exactly when TCP delivers each frame as one
event and the payloads are text. The bytes of ASCII decide it: none is lost or
made up in reading, so an event that ends too late would have to end in bytes
outside ASCII, and the next frame starts with an id below 32768; an event that
ends too early leaves such bytes to the next event, which shows them as its id.
-/

namespace AsioServer

/-- The page shows these messages, one for each event and without an exception. -/
def Shows (events : List Bytes) (msgs : List Message) : Prop :=
  List.Forall₂
    (fun shown (msg : Message) => ∃ m, shown = .ok m ∧ (m.id : Int) = msg.1 ∧
      Utf8.encode m.content = msg.2)
    (page (relay events)) msgs

/-- What the page can show: an id that is not negative, and a text. -/
def Showable (msg : Message) : Prop := 0 ≤ msg.1 ∧ Utf8.IsText msg.2

/-- The id is a `short`, and the length is within the limit. -/
def Sendable (msg : Message) : Prop :=
  -32768 ≤ msg.1 ∧ msg.1 < 32768 ∧ msg.2.length ≤ maxLength

/-- The frame that the node of a message holds. -/
def sentFrame (msg : Message) : Except Fault Bytes := do
  let node ← SendNode.new msg.2 msg.2.length msg.1
  return node.frame

def sentFrames (msgs : List Message) : Except Fault (List Bytes) := msgs.mapM sentFrame

theorem sentFrame_eq {msg : Message} (h : Sendable msg) : sentFrame msg = .ok (encode msg) := by
  obtain ⟨node, hnode, hframe⟩ := sendNode_eq msg.1 [] h.2.2
  rw [List.append_nil] at hnode
  rw [sentFrame, ok_bind hnode, hframe]
  rfl

theorem sentFrames_eq {msgs : List Message} (h : ∀ msg ∈ msgs, Sendable msg) :
    sentFrames msgs = .ok (msgs.map encode) := by
  induction msgs with
  | nil => rfl
  | cons msg msgs ih =>
      obtain ⟨hmsg, hmsgs⟩ := List.forall_mem_cons.mp h
      rw [sentFrames, List.mapM_cons, ok_bind (sentFrame_eq hmsg)]
      exact bind_ok (ih hmsgs) rfl

theorem encode_cons (msg : Message) :
    ∃ a b c d, encode msg = a :: b :: c :: d :: msg.2 ∧ (beNat a b : Int) = msg.1 % 65536 :=
  ⟨_, _, _, _, rfl, beNat_beBytes msg.1 rfl⟩

/-! ## One event -/

/-- The event shows the message. -/
def ShowsAs (data : Bytes) (msg : Message) : Prop :=
  ∃ m, parseMessage data = .ok m ∧ (m.id : Int) = msg.1 ∧ Utf8.encode m.content = msg.2

theorem shows_nil_iff (msgs : List Message) : Shows [] msgs ↔ msgs = [] := by
  rw [Shows, relay_eq, page, List.map_nil, List.forall₂_nil_left_iff]

theorem shows_cons_iff (data : Bytes) (events : List Bytes) (msgs : List Message) :
    Shows (data :: events) msgs ↔
      ∃ msg rest, ShowsAs data msg ∧ Shows events rest ∧ msgs = msg :: rest := by
  simp only [Shows, relay_eq, page, List.map_cons, List.forall₂_cons_left_iff]
  rfl

theorem showsAs_inv {data : Bytes} {msg : Message} (h : ShowsAs data msg) :
    ∃ a b c d body, data = a :: b :: c :: d :: body ∧ (beNat a b : Int) = msg.1 ∧
      Utf8.encode (Utf8.text body) = msg.2 := by
  obtain ⟨m, hparse, hid, hcontent⟩ := h
  obtain ⟨a, b, c, d, body, rfl, rfl⟩ := parseMessage_inv hparse
  exact ⟨a, b, c, d, body, rfl, hid, hcontent⟩

/-- A frame that is one event shows its message, if the message can be shown. -/
theorem showsAs_encode_iff {msg : Message} (h : Sendable msg) :
    ShowsAs (encode msg) msg ↔ Showable msg := by
  obtain ⟨a, b, c, d, hframe, hid⟩ := encode_cons msg
  obtain ⟨hlo, hhi, -⟩ := h
  rw [ShowsAs, hframe, parseMessage_cons]
  constructor
  · rintro ⟨m, hm, hshown, hcontent⟩
    cases hm
    exact ⟨by omega, (Utf8.encode_text_iff msg.2).mp hcontent⟩
  · rintro ⟨hnonneg, htext⟩
    have hsame : msg.1 % 65536 = msg.1 := Int.emod_eq_of_lt hnonneg (by omega)
    exact ⟨_, rfl, hid.trans hsame, (Utf8.encode_text_iff msg.2).mpr htext⟩

/-! ## Where an event ends

The next event, if it shows a message, and the next frame, if its message is
shown, start with a byte below 128. -/

theorem showsAs_head {z : UInt8} {data : Bytes} {msg : Message} (h : ShowsAs (z :: data) msg)
    (hmsg : Sendable msg) : z.toNat < 0x80 := by
  obtain ⟨a, b, c, d, body, hdata, hid, -⟩ := showsAs_inv h
  cases hdata
  have hhi := hmsg.2.1
  unfold beNat at hid
  omega

theorem encode_head {z : UInt8} {rest : Bytes} {msg : Message} (h : encode msg = z :: rest)
    (hmsg : Sendable msg) (hnonneg : 0 ≤ msg.1) : z.toNat < 0x80 := by
  obtain ⟨a, b, c, d, hframe, hid⟩ := encode_cons msg
  rw [hframe] at h
  cases h
  have hhi := hmsg.2.1
  have hb := b.toNat_lt
  unfold beNat at hid
  omega

theorem shows_head {events : List Bytes} {msgs : List Message} {z : UInt8} {rest : Bytes}
    (h : Shows events msgs) (hmsgs : ∀ msg ∈ msgs, Sendable msg)
    (hz : events.flatten = z :: rest) : z.toNat < 0x80 := by
  cases events with
  | nil => cases hz
  | cons data events =>
      obtain ⟨msg, msgs, hdata, -, rfl⟩ := (shows_cons_iff data events _).mp h
      obtain ⟨a, b, c, d, body, rfl, -, -⟩ := showsAs_inv hdata
      cases hz
      exact showsAs_head hdata (hmsgs msg List.mem_cons_self)

theorem frames_head {events : List Bytes} {msgs : List Message} {z : UInt8} {rest : Bytes}
    (h : Shows events msgs) (hmsgs : ∀ msg ∈ msgs, Sendable msg)
    (hz : (msgs.map encode).flatten = z :: rest) : z.toNat < 0x80 := by
  cases events with
  | nil =>
      rw [(shows_nil_iff msgs).mp h] at hz
      cases hz
  | cons data events =>
      obtain ⟨msg, msgs, hdata, -, rfl⟩ := (shows_cons_iff data events _).mp h
      obtain ⟨a, b, c, d, body, -, hid, -⟩ := showsAs_inv hdata
      obtain ⟨a', b', c', d', hframe, -⟩ := encode_cons msg
      rw [List.map_cons, List.flatten_cons, hframe] at hz
      cases hz
      exact encode_head hframe (hmsgs msg List.mem_cons_self) (by omega)

/-- An event that shows the message of the frame the stream starts with is that frame. -/
theorem event_eq_frame {data : Bytes} {events : List Bytes} {msg : Message} {msgs : List Message}
    (hdata : ShowsAs data msg) (hshows : Shows events msgs)
    (hmsgs : ∀ msg ∈ msgs, Sendable msg)
    (hstream : data ++ events.flatten = encode msg ++ (msgs.map encode).flatten) :
    data = encode msg := by
  obtain ⟨a, b, c, d, body, rfl, -, hcontent⟩ := showsAs_inv hdata
  obtain ⟨a', b', c', d', hframe, -⟩ := encode_cons msg
  have hascii : Utf8.asciiBytes body = Utf8.asciiBytes msg.2 :=
    Utf8.ascii_of_encode_text hcontent
  rw [hframe] at hstream ⊢
  simp only [List.cons_append, List.cons.injEq] at hstream ⊢
  obtain ⟨ha, hb, hc, hd, hbody⟩ := hstream
  refine ⟨ha, hb, hc, hd, ?_⟩
  rcases List.append_eq_append_iff.mp hbody with ⟨late, hpayload, hevents⟩ | ⟨early, hbody, hframes⟩
  · -- the rest of the payload starts the next event
    cases late with
    | nil => rw [hpayload, List.append_nil]
    | cons z late =>
        rw [hpayload] at hascii
        exact absurd (shows_head hshows hmsgs hevents) (Utf8.ascii_lost hascii.symm)
  · -- the event goes on into the next frame
    cases early with
    | nil => rw [hbody, List.append_nil]
    | cons z early =>
        rw [hbody] at hascii
        exact absurd (frames_head hshows hmsgs hframes) (Utf8.ascii_lost hascii)

theorem shows_frames {events : List Bytes} {msgs : List Message}
    (hmsgs : ∀ msg ∈ msgs, Sendable msg) (hshows : Shows events msgs)
    (hstream : events.flatten = (msgs.map encode).flatten) :
    events = msgs.map encode ∧ ∀ msg ∈ msgs, Showable msg := by
  induction events generalizing msgs with
  | nil =>
      rw [(shows_nil_iff msgs).mp hshows]
      exact ⟨rfl, fun msg hmsg => by cases hmsg⟩
  | cons data events ih =>
      obtain ⟨msg, rest, hdata, hrest, rfl⟩ := (shows_cons_iff data events msgs).mp hshows
      obtain ⟨hmsg, hmsgs⟩ := List.forall_mem_cons.mp hmsgs
      rw [List.flatten_cons, List.map_cons, List.flatten_cons] at hstream
      have hframe : data = encode msg := event_eq_frame hdata hrest hmsgs hstream
      rw [hframe] at hstream hdata
      obtain ⟨hevents, hall⟩ := ih hmsgs hrest (List.append_cancel_left hstream)
      rw [hframe, hevents, List.map_cons]
      exact ⟨rfl, List.forall_mem_cons.mpr ⟨(showsAs_encode_iff hmsg).mp hdata, hall⟩⟩

theorem frames_show {msgs : List Message} (hmsgs : ∀ msg ∈ msgs, Sendable msg)
    (hshowable : ∀ msg ∈ msgs, Showable msg) : Shows (msgs.map encode) msgs := by
  induction msgs with
  | nil => exact (shows_nil_iff []).mpr rfl
  | cons msg msgs ih =>
      obtain ⟨hmsg, hmsgs⟩ := List.forall_mem_cons.mp hmsgs
      obtain ⟨hshow, hshowable⟩ := List.forall_mem_cons.mp hshowable
      rw [List.map_cons, shows_cons_iff]
      exact ⟨msg, msgs, (showsAs_encode_iff hmsg).mpr hshow, ih hmsgs hshowable, rfl⟩

/-- However TCP delivers the frames of these messages, the page shows the
messages exactly when each event is one frame, and each of them can be shown. -/
theorem page_shows_iff {msgs : List Message} {frames events : List Bytes}
    (hmsgs : ∀ msg ∈ msgs, Sendable msg) (hsent : sentFrames msgs = .ok frames)
    (hstream : events.flatten = frames.flatten) :
    Shows events msgs ↔ events = frames ∧ ∀ msg ∈ msgs, Showable msg := by
  rw [sentFrames_eq hmsgs] at hsent
  cases hsent
  constructor
  · exact fun hshows => shows_frames hmsgs hshows hstream
  · rintro ⟨rfl, hshowable⟩
    exact frames_show hmsgs hshowable

/-- Two replies, one of them with a character of two bytes. -/
theorem page_shows_iff_replies :
    Shows [[0x03, 0xE9, 0, 2, 0x68, 0x69], [0x03, 0xEB, 0, 2, 0xC3, 0xA9]]
      [(1001, [0x68, 0x69]), (1003, [0xC3, 0xA9])] := by
  have hsend : ∀ msg ∈ [((1001 : Int), ([0x68, 0x69] : Bytes)), (1003, [0xC3, 0xA9])],
      Sendable msg := by
    unfold Sendable
    decide
  refine (page_shows_iff hsend (sentFrames_eq hsend) (by decide)).mpr ⟨by decide, ?_⟩
  rw [List.forall_mem_cons, List.forall_mem_singleton]
  unfold Showable
  refine ⟨⟨by decide, [0x68, 0x69], ?_, by decide, by decide⟩,
    ⟨by decide, [0xE9], ?_, by decide, by decide⟩⟩
  all_goals
    unfold Utf8.IsScalar
    decide

/-- Two frames in one segment. -/
theorem frames_not_shown :
    ¬ ∀ (msgs : List Message) (frames events : List Bytes), (∀ msg ∈ msgs, Sendable msg) →
      sentFrames msgs = .ok frames → events.flatten = frames.flatten → (∀ e ∈ events, e ≠ []) →
      Shows events msgs := by
  intro hall
  have hsend : ∀ msg ∈ [((1001 : Int), ascii "a"), (1003, ascii "b")], Sendable msg := by
    unfold Sendable
    decide
  have hshows := hall _ _ [[0x03, 0xE9, 0, 1, 0x61, 0x03, 0xEB, 0, 1, 0x62]] hsend
    (sentFrames_eq hsend) (by decide) (by decide)
  -- one event cannot show two messages
  have hlen := List.Forall₂.length_eq hshows
  rw [relay_eq, page, List.length_map] at hlen
  cases hlen

end AsioServer
