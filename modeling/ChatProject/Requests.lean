import ChatProject.Run
import ChatProject.Simulation

/-!
# Requests and runs of the server

A request is a message of one of the five request types whose fields are terminated. A
run hands requests to a server whose allocations all succeed; the server refines the
tables at every point of the run.
-/

namespace ChatProject
open Memory Protocol

/-- A text field of `n` bytes: what follows the terminator is arbitrary. -/
structure Field (n : ℕ) where
  bytes : Bytes
  size : bytes.length = n
  terminated : 0 ∈ bytes

namespace Field
variable {n k : ℕ}

def str (f : Field n) : CStr := text f.bytes

def last (f : Field 18) : UInt8 := f.bytes.getD 17 0

def groupName (f : Field 18) : GroupName where
  val := f.str
  property := by
    have h := text_length_lt f.bytes f.terminated
    rw [f.size] at h
    exact ⟨Nat.le_of_lt_succ h, zero_notMem_text _⟩

@[simp] theorem groupName_val (f : Field 18) : f.groupName.1 = f.str := rfl

def ofText (n : ℕ) (s : CStr) (h : s.length < n) : Field n where
  bytes := s ++ List.replicate (n - s.length) 0
  size := by simp; omega
  terminated := by simp; omega

theorem str_ofText {s : CStr} (h : s.length < n) (h0 : 0 ∉ s) : (ofText n s h).str = s := by
  obtain ⟨k, hk⟩ : ∃ k, n - s.length = k + 1 := ⟨n - s.length - 1, by omega⟩
  change text (s ++ List.replicate (n - s.length) 0) = s
  rw [hk, List.replicate_succ]
  exact text_append_zero _ _ h0

end Field

def frame {n k : ℕ} (type : ProtocolType) (f : Field n) (f' : Field k) : Bytes :=
  type.toByte :: (f.bytes ++ f'.bytes)

section Frame
variable {n k : ℕ} (type : ProtocolType) (f : Field n) (f' : Field k) (rest : Bytes)

theorem cstr_frame_first : cstr (frame type f f' ++ rest) 1 = f.str := by
  simp only [cstr, frame, List.cons_append, List.drop_succ_cons, List.drop_zero,
    List.append_assoc]
  exact text_append_of_mem _ _ f.terminated

theorem cstr_frame_second : cstr (frame type f f' ++ rest) (n + 1) = f'.str := by
  simp only [cstr, frame, List.cons_append, List.drop_succ_cons, List.append_assoc]
  rw [List.drop_left' f.size]
  exact text_append_of_mem _ _ f'.terminated

theorem unPack_frame (htype : type ∈ requestTypes) :
    unPack .little (frame type f f' ++ rest) = (some type, frame type f f' ++ rest) :=
  unPack_request (by simp [frame]) htype

end Frame

theorem groupRequestAt_frame (type : ProtocolType) (group : Field 18) (user : Field 17)
    (rest : Bytes) :
    Refines.GroupRequestAt (frame type group user ++ rest) group.groupName user.str
      group.last where
  group := cstr_frame_first type group user rest
  user := cstr_frame_second type group user rest
  spare := by
    have hlt : 17 < group.bytes.length := by rw [group.size]; decide
    simp [frame, userUserName, Field.last, List.getElem?_append_left hlt, hlt]

inductive Request
  | register (name psw : Field 17)
  | login (name psw : Field 17)
  | create (group : Field 18) (user : Field 17)
  | join (group : Field 18) (user : Field 17)
  | leave (group : Field 18) (user : Field 17)

namespace Request

def message : Request → Bytes
  | register name psw => frame .registerReq psw name
  | login name psw => frame .loginReq psw name
  | create group user => frame .createGroupConversationReq group user
  | join group user => frame .joinConversationReq group user
  | leave group user => frame .leaveConversationReq group user

def call : Request → Call
  | register name psw => .register name.str psw.str
  | login name psw => .login name.str psw.str
  | create group user => .create group.groupName user.str group.last
  | join group user => .join group.groupName user.str
  | leave group user => .leave group.groupName user.str group.last

end Request

/-- A server with succeeding allocations that refines the tables. -/
structure Serves (s : Server) (t : Tables) : Prop where
  refines : Refines s.context t
  heap : ∃ p, s.heap = Heap.succeeding p

namespace Serves
variable {s : Server} {t : Tables}

theorem exchange (h : Serves s t) (r : Request) :
    (s.Succeeds r.message ↔ t.Succeeds r.call) ∧
    ∃ s', s.exchange r.message = (ServerApp.packAnswer (some (t.reply r.call)), s') ∧
      Serves s' (t.next r.call) := by
  obtain ⟨href, p, hp⟩ := h
  cases r with
  | register name psw =>
    let buf := Server.recv (frame .registerReq psw name) s.bufferRcv
    have hun : unPack .little buf = (some .registerReq, buf) := unPack_frame _ _ _ _ (by decide)
    have hname : cstr buf userUserName = name.str := cstr_frame_second _ _ _ _
    have hpsw : cstr buf userPassword = psw.str := cstr_frame_first _ _ _ _
    obtain ⟨db', p', he, href'⟩ := href.register buf (fun n => p (n + 1))
    rw [hname, hpsw] at he href'
    refine ⟨?_, ⟨buf, db', Heap.succeeding p'⟩, ?_, href', p', rfl⟩
    · simp [Server.Succeeds, Request.message, buf, hun, hp, he, Tables.Succeeds, Request.call]
    · simp [Server.exchange, Request.message, ServerApp.getFromClientAndSendToServer, buf, hun, hp,
        ServerApp.checkUserNameOnDB, he, Tables.reply, Request.call]
  | login name psw =>
    let buf := Server.recv (frame .loginReq psw name) s.bufferRcv
    have hun : unPack .little buf = (some .loginReq, buf) := unPack_frame _ _ _ _ (by decide)
    have hname : cstr buf userUserName = name.str := cstr_frame_second _ _ _ _
    have hpsw : cstr buf userPassword = psw.str := cstr_frame_first _ _ _ _
    obtain ⟨p', he⟩ := href.login buf (fun n => p (n + 1))
    rw [hname, hpsw] at he
    refine ⟨?_, ⟨buf, s.context, Heap.succeeding p'⟩, ?_, href, p', rfl⟩
    · simp [Server.Succeeds, Request.message, buf, hun, hp, he, Tables.Succeeds, Request.call]
    · simp [Server.exchange, Request.message, ServerApp.getFromClientAndSendToServer, buf, hun, hp,
        ServerApp.checkUserNameOnDB, he, Tables.reply, Request.call]
  | create group user =>
    let buf := Server.recv (frame .createGroupConversationReq group user) s.bufferRcv
    have hun : unPack .little buf = (some .createGroupConversationReq, buf) :=
      unPack_frame _ _ _ _ (by decide)
    have hat : Refines.GroupRequestAt buf group.groupName user.str group.last :=
      groupRequestAt_frame _ _ _ _
    obtain ⟨db', p', he, href'⟩ := href.create hat (fun n => p (n + 1))
    refine ⟨?_, ⟨buf, db', Heap.succeeding p'⟩, ?_, href', p', rfl⟩
    · simp [Server.Succeeds, Request.message, buf, hun, hp, he, Tables.Succeeds, Request.call]
    · simp [Server.exchange, Request.message, ServerApp.getFromClientAndSendToServer, buf, hun, hp,
        ServerApp.ansForGroupRequests, he, Tables.reply, Request.call]
  | join group user =>
    let buf := Server.recv (frame .joinConversationReq group user) s.bufferRcv
    have hun : unPack .little buf = (some .joinConversationReq, buf) :=
      unPack_frame _ _ _ _ (by decide)
    have hat : Refines.GroupRequestAt buf group.groupName user.str group.last :=
      groupRequestAt_frame _ _ _ _
    obtain ⟨db', he, href'⟩ := href.join hat
    refine ⟨?_, ⟨buf, db', Heap.succeeding (fun n => p (n + 1))⟩, ?_, href', _, rfl⟩
    · simp [Server.Succeeds, Request.message, buf, hun, he, Tables.Succeeds, Request.call]
    · simp [Server.exchange, Request.message, ServerApp.getFromClientAndSendToServer, buf, hun, hp,
        ServerApp.ansForGroupRequests, he, Tables.reply, Request.call]
  | leave group user =>
    let buf := Server.recv (frame .leaveConversationReq group user) s.bufferRcv
    have hun : unPack .little buf = (some .leaveConversationReq, buf) :=
      unPack_frame _ _ _ _ (by decide)
    have hat : Refines.GroupRequestAt buf group.groupName user.str group.last :=
      groupRequestAt_frame _ _ _ _
    obtain ⟨db', he, href'⟩ := href.leave hat
    refine ⟨?_, ⟨buf, db', Heap.succeeding (fun n => p (n + 1))⟩, ?_, href', _, rfl⟩
    · simp [Server.Succeeds, Request.message, buf, hun, he, Tables.Succeeds, Request.call]
    · simp [Server.exchange, Request.message, ServerApp.getFromClientAndSendToServer, buf, hun, hp,
        ServerApp.ansForGroupRequests, he, Tables.reply, Request.call]

end Serves

namespace Server

theorem start_succeeding (p : ℕ → ℕ) :
    ∃ s, start (Heap.succeeding p) = some s ∧ Serves s Tables.empty := by
  obtain ⟨db, p', he, href⟩ := createMainDataBase_succeeding p
  exact ⟨_, by rw [start, he], href, p', rfl⟩

theorem start_isSome (p : ℕ → ℕ) : (start (Heap.succeeding p)).isSome := by
  obtain ⟨s, he, -⟩ := start_succeeding p
  simp [he]

def running (p : ℕ → ℕ) : Server := (start (Heap.succeeding p)).get (start_isSome p)

theorem running_serves (p : ℕ → ℕ) : Serves (running p) Tables.empty := by
  obtain ⟨s, he, hs⟩ := start_succeeding p
  simpa [running, he] using hs

def handle (s : Server) (r : Request) : Server := (s.exchange r.message).2

def after (p : ℕ → ℕ) (rs : List Request) : Server := Run.after handle (running p) rs

theorem exchange_bufferRcv (s : Server) (msg : Bytes) :
    (s.exchange msg).2.bufferRcv = (unPack .little (recv msg s.bufferRcv)).2 := by
  simp only [exchange, ServerApp.getFromClientAndSendToServer]
  split
  · split <;> rfl
  · split <;> rfl
  all_goals rfl

theorem bufferRcv_after (p : ℕ → ℕ) (rs : List Request) (r : Request) :
    (after p (rs ++ [r])).bufferRcv =
      (unPack .little (recv r.message (after p rs).bufferRcv)).2 := by
  rw [← exchange_bufferRcv, after, Run.after_snoc]
  rfl

def answerTo (p : ℕ → ℕ) (rs : List Request) (r : Request) :
    Option (ProtocolType × Option Answers) :=
  answered ((after p rs).exchange r.message).1

end Server

def Tables.after (rs : List Request) : Tables :=
  Run.after (fun t r => t.next r.call) Tables.empty rs

@[simp] theorem Tables.after_nil : Tables.after [] = Tables.empty := rfl

@[simp] theorem Tables.after_snoc (rs : List Request) (r : Request) :
    Tables.after (rs ++ [r]) = (Tables.after rs).next r.call :=
  Run.after_snoc _ _ _ _

namespace Server

/-- At every point of a run the server refines the tables. -/
theorem after_serves (p : ℕ → ℕ) (rs : List Request) : Serves (after p rs) (Tables.after rs) := by
  have hstep : ∀ s t r, Serves s t → Serves (handle s r) (t.next r.call) := by
    intro s t r h
    obtain ⟨-, s', he, hs'⟩ := h.exchange r
    rwa [handle, he]
  exact Run.simulation hstep (running_serves p) rs

theorem answerTo_eq (p : ℕ → ℕ) (rs : List Request) (r : Request) :
    answerTo p rs r =
      some (((Tables.after rs).reply r.call).type, ((Tables.after rs).reply r.call).answer) := by
  obtain ⟨-, s', he, -⟩ := (after_serves p rs).exchange r
  rw [answerTo, he]
  rfl

theorem succeeds_after (p : ℕ → ℕ) (rs : List Request) (r : Request) :
    (after p rs).Succeeds r.message ↔ (Tables.after rs).Succeeds r.call :=
  ((after_serves p rs).exchange r).1

end Server
end ChatProject
