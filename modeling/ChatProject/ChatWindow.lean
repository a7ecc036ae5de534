import ChatProject.Pairing
import ChatProject.PoolAddr
import ChatProject.UI
import Mathlib.Data.Nat.Digits.Lemmas
import Mathlib.Data.List.TakeWhile

/-!
# The chat windows

`OpenChatWindow` has the shell start a listener and a sender, each in a terminal of its own,
with the group's address, the port and the two names on the command line. The sender sends
each line that is typed, behind the user's name, as a datagram of the whole buffer; the
listener prints the text that it finds in the buffer it receives into.
-/

namespace ChatProject
open Memory

def ascii (s : String) : CStr := s.toList.map fun c => UInt8.ofNat c.toNat

namespace ChatWindow

/-! ## The command line -/

/-- Characters that stand for themselves in a command. -/
def isPlain (c : UInt8) : Bool :=
  UI.isDigit c || (65 ≤ c && c ≤ 90) || (97 ≤ c && c ≤ 122) || [43, 45, 46, 47, 58, 95].contains c

def blankChar : UInt8 := 32

/-- A shell takes a command of plain characters for its words. What it makes of another command
is left open. -/
structure Shell where
  words : CStr → Option (List CStr)
  plain : ∀ command : CStr, (command.all fun c => c = blankChar || isPlain c) = true →
    words command = some ((command.splitOn blankChar).filter (· ≠ []))

def listenGeometry : CStr := ascii "60x60+50+10"

def senderGeometry : CStr := ascii "60x60+110+10"

/-- `gnome-terminal`: with these options it runs the rest of its command line in its window. What
it makes of other arguments is left open. -/
structure Terminal where
  runs : List CStr → Option (List CStr)
  execute : ∀ geometry ∈ [listenGeometry, senderGeometry], ∀ program args,
    runs (ascii "--geometry" :: geometry :: ascii "-x" :: program :: args) = some (program :: args)

/-- What runs in the terminal that the command starts. -/
def started (shell : Shell) (terminal : Terminal) (command : CStr) : Option (List CStr) :=
  (shell.words command).bind fun
    | [] => none
    | program :: args => if program = ascii "gnome-terminal" then terminal.runs args else none

def natText (n : ℕ) : CStr :=
  if n = 0 then [48] else ((Nat.digits 10 n).map fun d => UInt8.ofNat (48 + d)).reverse

def intText (z : ℤ) : CStr := if z < 0 then 45 :: natText z.natAbs else natText z.natAbs

def atoi (s : CStr) : ℤ := (UI.scanInt s).1.getD 0

def command (geometry program : CStr) (groupIP : CStr) (port : ℤ) (userName groupName : CStr) :
    CStr :=
  [blankChar].intercalate [ascii "gnome-terminal", ascii "--geometry", geometry, ascii "-x",
    program, groupIP, intText port, userName, groupName]

def listenCommand : CStr → ℤ → CStr → CStr → CStr :=
  command listenGeometry (ascii "./listen.out")

def senderCommand : CStr → ℤ → CStr → CStr → CStr :=
  command senderGeometry (ascii "./sender.out")

/-! ## Addresses -/

/-- A number of a dotted address, in decimal; a leading zero would make it octal. -/
def octet (s : CStr) : Option ℕ :=
  if s ≠ [] ∧ s.all UI.isDigit ∧ (s.head? = some 48 → s = [48]) ∧ UI.digitsValue s < 256 then
    some (UI.digitsValue s)
  else none

/-- `none` is `INADDR_NONE`, or a form of address other than four decimal numbers. -/
def inetAddr (s : CStr) : Option (List ℕ) :=
  let parts := s.splitOn 46
  if parts.length = 4 then parts.mapM octet else none

structure SockAddr where
  addr : Option (List ℕ)
  port : ℕ
  deriving DecidableEq

def sockAddr (ip port : CStr) : SockAddr := ⟨inetAddr ip, (atoi port % 2 ^ 16).toNat⟩

end ChatWindow

open ChatWindow

def msgBuffSize : ℕ := 4096

/-! ## The listener -/

structure Listener where
  address : SockAddr
  msgbuf : Bytes
  printed : CStr

namespace Listener

/-- The headings are printed before the loop. -/
def start (argv : List CStr) : Option Listener :=
  match argv with
  | _ :: ip :: port :: _ :: _ :: _ =>
    some ⟨sockAddr ip port, List.replicate msgBuffSize 0, []⟩
  | _ => none

/-- `recvfrom` takes as much of the datagram as fits. -/
def receive (l : Listener) (datagram : Bytes) : Listener :=
  let msgbuf := store l.msgbuf 0 (datagram.take msgBuffSize)
  { l with msgbuf := msgbuf, printed := l.printed ++ cstr msgbuf 0 }

end Listener

/-! ## The sender -/

structure Sender where
  address : SockAddr
  userName : CStr
  message : CStr
  messageToSnd : Block msgBuffSize

def rendered (userName line : CStr) : CStr :=
  27 :: (ascii "[36m" ++ (userName ++ (58 :: 27 :: (ascii "[0m" ++ 32 :: line))))

theorem strcpy_zero_length {n : ℕ} (b : Block n) {s : CStr} (h : s.length + 1 ≤ n) :
    (strcpy b.1 0 s).length = n := by
  have hb := b.2
  simp only [strcpy, store, List.take_zero, List.nil_append, List.length_append, List.length_drop,
    List.length_singleton]
  omega

namespace Sender

def start (argv : List CStr) : Option Sender :=
  match argv with
  | _ :: ip :: port :: userName :: _ =>
    some ⟨sockAddr ip port, userName, [], ⟨List.replicate msgBuffSize 0, List.length_replicate⟩⟩
  | _ => none

/-- The text in `message` after `fgets`, which stores what it has read, or nothing at the end
of the input. -/
def afterFgets (s : Sender) (read : Option Bytes) : CStr := (read.map text).getD s.message

/-- One turn of the loop, with the datagram that is sent; `none` is a `sprintf` that writes
beyond its buffer. -/
def say (s : Sender) (read : Option Bytes) : Option (Sender × Bytes) :=
  let message := s.afterFgets read
  if h : (rendered s.userName message).length + 1 ≤ msgBuffSize then
    let messageToSnd : Block msgBuffSize :=
      ⟨strcpy s.messageToSnd.1 0 (rendered s.userName message), strcpy_zero_length _ h⟩
    some ({ s with message := message, messageToSnd := messageToSnd }, messageToSnd.1)
  else none

end Sender

/-- `OpenChatWindow`: the sender is started once the file with the listener's process number
can be opened. -/
def openChatWindow (shell : Shell) (terminal : Terminal) (groupIP : CStr) (port : ℤ)
    (userName groupName : CStr) (fileForListen : Bool) : Option Listener × Option Sender :=
  let listenArgv := started shell terminal (listenCommand groupIP port userName groupName)
  let senderArgv := started shell terminal (senderCommand groupIP port userName groupName)
  (listenArgv.bind Listener.start, if fileForListen then senderArgv.bind Sender.start else none)

/-! ## What the windows are started with -/

namespace ChatWindow

theorem digitsValue_natText (n : ℕ) : UI.digitsValue (natText n) = n := by
  by_cases hn : n = 0
  · rw [hn]
    rfl
  · have hdigit : ∀ d ∈ Nat.digits 10 n, (UInt8.ofNat (48 + d)).toNat - 48 = d := by
      intro d hd
      have hlt := Nat.digits_lt_base (by decide : 1 < 10) hd
      simp only [UInt8.toNat_ofNat']
      omega
    rw [natText, if_neg hn, UI.digitsValue, List.foldl_reverse, List.foldr_map]
    calc (Nat.digits 10 n).foldr (fun d m => 10 * m + ((UInt8.ofNat (48 + d)).toNat - 48)) 0
        = (Nat.digits 10 n).foldr (fun d m => d + 10 * m) 0 := by
          refine List.foldr_ext _ _ _ fun d hd m => ?_
          rw [hdigit d hd, Nat.add_comm]
      _ = Nat.ofDigits 10 (Nat.digits 10 n) := (Nat.ofDigits_eq_foldr 10 _).symm
      _ = n := Nat.ofDigits_digits 10 n

theorem natText_digits (n : ℕ) : ∀ c ∈ natText n, UI.isDigit c = true := by
  intro c hc
  by_cases hn : n = 0
  · rw [hn] at hc
    obtain rfl : c = 48 := by simpa [natText] using hc
    rfl
  · rw [natText, if_neg hn, List.mem_reverse, List.mem_map] at hc
    obtain ⟨d, hd, rfl⟩ := hc
    have hall : ∀ d < 10, UI.isDigit (UInt8.ofNat (48 + d)) = true := by decide
    exact hall d (Nat.digits_lt_base (by decide) hd)

theorem natText_ne_nil (n : ℕ) : natText n ≠ [] := by
  by_cases hn : n = 0
  · simp [natText, hn]
  · simp [natText, hn, Nat.digits_ne_nil_iff_ne_zero]

theorem scanInt_digits {ds : CStr} (hne : ds ≠ []) (hds : ∀ c ∈ ds, UI.isDigit c = true) :
    UI.unsigned ds = ds ∧ UI.scanInt ds = (some (UI.digitsValue ds : ℤ), []) := by
  have hsigns : ∀ c ∈ ds, c ≠ 43 ∧ c ≠ 45 := by
    intro c hc
    constructor
    · rintro rfl
      exact absurd (hds 43 hc) (by decide)
    · rintro rfl
      exact absurd (hds 45 hc) (by decide)
  cases ds with
  | nil => exact absurd rfl hne
  | cons c cs =>
    obtain ⟨hplus, hminus⟩ := hsigns c List.mem_cons_self
    have hunsigned : UI.unsigned (c :: cs) = c :: cs := by
      rw [UI.unsigned.eq_def]
      split
      · rename_i heq
        exact absurd (List.cons.inj heq).1 hplus
      · rename_i heq
        exact absurd (List.cons.inj heq).1 hminus
      · rfl
    refine ⟨hunsigned, ?_⟩
    have htake : (c :: cs).takeWhile UI.isDigit = c :: cs := List.takeWhile_eq_self_iff.mpr hds
    have hdrop : (c :: cs).dropWhile UI.isDigit = [] := List.dropWhile_eq_nil_iff.mpr hds
    simp [UI.scanInt, hunsigned, htake, hdrop, hminus]

theorem scanInt_intText (z : ℤ) : UI.scanInt (intText z) = (some z, []) := by
  have hdigits := natText_digits z.natAbs
  obtain ⟨-, hscan⟩ := scanInt_digits (natText_ne_nil _) hdigits
  by_cases hz : z < 0
  · have htake := List.takeWhile_eq_self_iff.mpr hdigits
    have hdrop := List.dropWhile_eq_nil_iff.mpr hdigits
    have habs : -|z| = z := by rw [abs_of_neg hz, neg_neg]
    simp [intText, hz, UI.scanInt, UI.unsigned, htake, hdrop, natText_ne_nil,
      digitsValue_natText, habs]
  · have habs : (z.natAbs : ℤ) = z := by omega
    rw [intText, if_neg hz, hscan, digitsValue_natText, habs]

@[simp] theorem atoi_intText (z : ℤ) : atoi (intText z) = z := by
  rw [atoi, scanInt_intText, Option.getD_some]

structure PlainWord (w : CStr) : Prop where
  nonempty : w ≠ []
  plain : ∀ c ∈ w, isPlain c = true

theorem plainWord_ascii {s : String} (h : ascii s ≠ [] ∧ (ascii s).all isPlain = true) :
    PlainWord (ascii s) :=
  ⟨h.1, List.all_eq_true.mp h.2⟩

theorem plainWord_intText (z : ℤ) : PlainWord (intText z) := by
  have hdigit : ∀ c, UI.isDigit c = true → isPlain c = true := by
    intro c hc
    simp [isPlain, hc]
  have hnat : ∀ c ∈ natText z.natAbs, isPlain c = true :=
    fun c hc => hdigit c (natText_digits _ c hc)
  by_cases hz : z < 0
  · rw [intText, if_pos hz]
    exact ⟨List.cons_ne_nil _ _, List.forall_mem_cons.mpr ⟨rfl, hnat⟩⟩
  · rw [intText, if_neg hz]
    exact ⟨natText_ne_nil _, hnat⟩

theorem intercalate_cons_cons {α : Type} (x : α) (w w' : List α) (ws : List (List α)) :
    [x].intercalate (w :: w' :: ws) = w ++ x :: [x].intercalate (w' :: ws) := by
  simp [List.intercalate]

theorem Shell.words_intercalate (shell : Shell) {ws : List CStr} (hne : ws ≠ [])
    (h : ∀ w ∈ ws, PlainWord w) : shell.words ([blankChar].intercalate ws) = some ws := by
  have hall : ([blankChar].intercalate ws).all (fun c => c = blankChar || isPlain c) = true := by
    clear hne
    induction ws with
    | nil => rfl
    | cons w ws ih =>
      have hw : w.all (fun c => c = blankChar || isPlain c) = true := by
        rw [List.all_eq_true]
        intro c hc
        simp [(h w List.mem_cons_self).plain c hc]
      have hws := ih fun w hw => h w (List.mem_cons_of_mem _ hw)
      cases ws with
      | nil => simpa [List.intercalate] using hw
      | cons w' ws =>
        rw [intercalate_cons_cons, List.all_append, List.all_cons, hw, hws]
        rfl
  have hblank : ∀ w ∈ ws, blankChar ∉ w := by
    intro w hw hc
    exact absurd ((h w hw).plain _ hc) (by decide)
  rw [shell.plain _ hall, List.splitOn_intercalate _ hblank hne]
  congr 1
  rw [List.filter_eq_self]
  intro w hw
  simp [(h w hw).nonempty]

theorem started_command (shell : Shell) (terminal : Terminal) {geometry program : CStr}
    (hgeometry : geometry ∈ [listenGeometry, senderGeometry]) (hprogram : PlainWord program)
    {groupIP : CStr} (hip : PlainWord groupIP) (port : ℤ) {userName groupName : CStr}
    (huser : PlainWord userName) (hgroup : PlainWord groupName) :
    started shell terminal (command geometry program groupIP port userName groupName) =
      some [program, groupIP, intText port, userName, groupName] := by
  have hplain : PlainWord geometry := by
    have hall : ∀ g ∈ [listenGeometry, senderGeometry], g ≠ [] ∧ g.all isPlain = true := by decide
    exact ⟨(hall geometry hgeometry).1, List.all_eq_true.mp (hall geometry hgeometry).2⟩
  have hwords : ∀ w ∈ [ascii "gnome-terminal", ascii "--geometry", geometry, ascii "-x", program,
      groupIP, intText port, userName, groupName], PlainWord w := by
    simp only [List.forall_mem_cons, List.not_mem_nil, false_implies, implies_true, and_true]
    exact ⟨plainWord_ascii (by decide), plainWord_ascii (by decide), hplain,
      plainWord_ascii (by decide), hprogram, hip, plainWord_intText port, huser, hgroup⟩
  rw [started, command, shell.words_intercalate (List.cons_ne_nil _ _) hwords, Option.bind_some]
  simp only [↓reduceIte]
  exact terminal.execute geometry hgeometry _ _

theorem inetAddr_addressAt : ∀ k < IPPoolAddr.capacity,
    inetAddr (IPPoolAddr.addressAt k) = some [229, 1, 0, k + 1] := by
  decide

theorem plainWord_addressAt {k : ℕ} (hk : k < IPPoolAddr.capacity) :
    PlainWord (IPPoolAddr.addressAt k) := by
  have hall : ∀ k < IPPoolAddr.capacity, IPPoolAddr.addressAt k ≠ [] ∧
      (IPPoolAddr.addressAt k).all isPlain = true := by
    decide
  obtain ⟨hne, hplain⟩ := hall k hk
  exact ⟨hne, List.all_eq_true.mp hplain⟩

def groupAddress (groupIP : CStr) (port : ℤ) : SockAddr :=
  ⟨inetAddr groupIP, (port % 2 ^ 16).toNat⟩

theorem openChatWindow_eq (shell : Shell) (terminal : Terminal) {groupIP : CStr}
    (hip : PlainWord groupIP) (port : ℤ) {userName groupName : CStr} (huser : PlainWord userName)
    (hgroup : PlainWord groupName) (fileForListen : Bool) :
    openChatWindow shell terminal groupIP port userName groupName fileForListen =
      (some ⟨groupAddress groupIP port, List.replicate msgBuffSize 0, []⟩,
        if fileForListen then
          some ⟨groupAddress groupIP port, userName, [],
            ⟨List.replicate msgBuffSize 0, List.length_replicate⟩⟩
        else none) := by
  have hlisten := started_command shell terminal (List.mem_cons_self : listenGeometry ∈ _)
    (plainWord_ascii (by decide) : PlainWord (ascii "./listen.out")) hip port huser hgroup
  have hsender := started_command shell terminal
    (List.mem_cons_of_mem _ List.mem_cons_self : senderGeometry ∈ _)
    (plainWord_ascii (by decide) : PlainWord (ascii "./sender.out")) hip port huser hgroup
  rw [openChatWindow, listenCommand, senderCommand, hlisten, hsender]
  simp [Listener.start, Sender.start, sockAddr, groupAddress]

/-! ## The buffers of the commands -/

theorem intText_length {z : ℤ} (hz : -2 ^ 31 ≤ z ∧ z < 2 ^ 31) : (intText z).length ≤ 11 := by
  have hnat : ∀ n < 10 ^ 10, (natText n).length ≤ 10 := by
    intro n hn
    by_cases h0 : n = 0
    · simp [natText, h0]
    · rw [natText, if_neg h0, List.length_reverse, List.length_map]
      exact (Nat.digits_length_le_iff (by decide) n).mpr hn
  have hlen := hnat z.natAbs (by omega)
  rw [intText]
  split_ifs
  · exact Nat.succ_le_succ hlen
  · exact Nat.le_succ_of_le hlen

theorem command_fits {geometry program : CStr} (hgeometry : geometry.length ≤ 12)
    (hprogram : program.length ≤ 12) {k : ℕ} (hk : k < IPPoolAddr.capacity) {port : ℤ}
    (hport : -2 ^ 31 ≤ port ∧ port < 2 ^ 31) (userName : TypedName 17) (groupName : TypedName 18) :
    (command geometry program (IPPoolAddr.addressAt k) port userName.val groupName.val).length <
      Client.buffSize := by
  have hip := (IPPoolAddr.addressAt_text k hk).2.2
  have hint := intText_length hport
  have huser := userName.short
  have hgroup := groupName.short
  have hlast : ∀ w : CStr, [blankChar].intercalate [w] = w := fun w => by simp [List.intercalate]
  have hterminal : (ascii "gnome-terminal").length = 14 := by decide
  have hoption : (ascii "--geometry").length = 10 := by decide
  have hexecute : (ascii "-x").length = 2 := by decide
  simp only [command, intercalate_cons_cons, hlast, List.length_append, List.length_cons,
    hterminal, hoption, hexecute, Client.buffSize]
  omega

def plainShell : Shell where
  words command :=
    if command.all fun c => c = blankChar || isPlain c then
      some ((command.splitOn blankChar).filter (· ≠ []))
    else none
  plain := fun _ h => if_pos h

def plainTerminal : Terminal where
  runs
    | option :: _ :: execute :: args =>
      if option = ascii "--geometry" ∧ execute = ascii "-x" then some args else none
    | _ => none
  execute := fun _ _ _ _ => if_pos ⟨rfl, rfl⟩

theorem unbroken_ascii {s : String} (h : (ascii s).all (fun c => !isSpace c) = true) :
    ∀ c ∈ ascii s, isSpace c = false := by
  intro c hc
  simpa using List.all_eq_true.mp h c hc

/-- For a group of the pool the commands fit their buffers, and the two programs are started
with its address and the port, and the sender with the user's name. -/
theorem openChatWindow_pool (shell : Shell) (terminal : Terminal) {k : ℕ}
    (hk : k < IPPoolAddr.capacity) {port : ℤ} (hport : -2 ^ 31 ≤ port ∧ port < 2 ^ 31)
    {userName : TypedName 17} {groupName : TypedName 18} (huser : PlainWord userName.val)
    (hgroup : PlainWord groupName.val) (fileForListen : Bool) :
    (listenCommand (IPPoolAddr.addressAt k) port userName.val groupName.val).length <
        Client.buffSize ∧
      (senderCommand (IPPoolAddr.addressAt k) port userName.val groupName.val).length <
        Client.buffSize ∧
      openChatWindow shell terminal (IPPoolAddr.addressAt k) port userName.val groupName.val
          fileForListen =
        (some ⟨⟨some [229, 1, 0, k + 1], (port % 2 ^ 16).toNat⟩, List.replicate msgBuffSize 0, []⟩,
          if fileForListen then
            some ⟨⟨some [229, 1, 0, k + 1], (port % 2 ^ 16).toNat⟩, userName.val, [],
              ⟨List.replicate msgBuffSize 0, List.length_replicate⟩⟩
          else none) := by
  refine ⟨command_fits (by decide) (by decide) hk hport userName groupName,
    command_fits (by decide) (by decide) hk hport userName groupName, ?_⟩
  rw [openChatWindow_eq shell terminal (plainWord_addressAt hk) port huser hgroup fileForListen,
    groupAddress, inetAddr_addressAt k hk]

/-- The names `me` and `friends`. -/
theorem openChatWindow_pool_last :
    (openChatWindow plainShell plainTerminal (ascii "229.1.0.50") (-1) (ascii "me")
      (ascii "friends") true).1 =
      some ⟨⟨some [229, 1, 0, 50], 65535⟩, List.replicate msgBuffSize 0, []⟩ := by
  let userName : TypedName 17 :=
    ⟨ascii "me", by decide, by decide, by decide, unbroken_ascii (by decide)⟩
  let groupName : TypedName 18 :=
    ⟨ascii "friends", by decide, by decide, by decide, unbroken_ascii (by decide)⟩
  have huser : PlainWord userName.val := plainWord_ascii (by decide)
  have hgroup : PlainWord groupName.val := plainWord_ascii (by decide)
  obtain ⟨-, -, hopened⟩ := openChatWindow_pool plainShell plainTerminal
    (by decide : 49 < IPPoolAddr.capacity) (by decide : -2 ^ 31 ≤ (-1 : ℤ) ∧ (-1 : ℤ) < 2 ^ 31)
    huser hgroup true
  exact congrArg Prod.fst hopened

end ChatWindow

theorem text_length_le (a : Bytes) : (text a).length ≤ a.length := by
  induction a with
  | nil => exact Nat.le_refl _
  | cons b a ih =>
    rw [text]
    split_ifs
    · exact Nat.zero_le _
    · exact Nat.succ_le_succ ih

namespace Sender

theorem say_eq_none_iff (s : Sender) (read : Option Bytes) :
    s.say read = none ↔ msgBuffSize < s.userName.length + (s.afterFgets read).length + 12 := by
  have hlen : (rendered s.userName (s.afterFgets read)).length =
      s.userName.length + (s.afterFgets read).length + 11 := by
    have hstart : (ascii "[36m").length = 4 := by decide
    have hend : (ascii "[0m").length = 3 := by decide
    simp only [rendered, List.length_cons, List.length_append, hstart, hend]
    omega
  rw [say]
  simp only [hlen]
  split_ifs with h
  · simp only [false_iff]
    omega
  · simp only [true_iff]
    omega

/-- The strings that the sender keeps are terminated. -/
structure Clean (s : Sender) : Prop where
  userName : 0 ∉ s.userName
  message : 0 ∉ s.message

theorem Clean.afterFgets {s : Sender} (h : s.Clean) (read : Option Bytes) :
    0 ∉ s.afterFgets read := by
  cases read with
  | none => exact h.message
  | some bytes => exact zero_notMem_text bytes

theorem Clean.rendered {s : Sender} (h : s.Clean) (read : Option Bytes) :
    0 ∉ rendered s.userName (s.afterFgets read) := by
  have hstart : 0 ∉ ascii "[36m" := by decide
  have hend : 0 ∉ ascii "[0m" := by decide
  simp [ChatProject.rendered, hstart, hend, h.userName, h.afterFgets read]

theorem say_message {s s' : Sender} {read : Option Bytes} {datagram : Bytes}
    (h : s.say read = some (s', datagram)) : s'.message = s.afterFgets read := by
  rw [say] at h
  split_ifs at h
  obtain ⟨rfl, -⟩ := Prod.mk.inj (Option.some.inj h)
  rfl

theorem Clean.say_some {s s' : Sender} (hs : s.Clean) {read : Option Bytes} {datagram : Bytes}
    (h : s.say read = some (s', datagram)) :
    s'.Clean ∧ s'.address = s.address ∧ s'.userName = s.userName ∧
      datagram.length = msgBuffSize ∧
      ∃ beyond, datagram = ChatProject.rendered s.userName (s.afterFgets read) ++ 0 :: beyond := by
  rw [say] at h
  split_ifs at h with hfits
  obtain ⟨rfl, rfl⟩ := Prod.mk.inj (Option.some.inj h)
  refine ⟨⟨hs.userName, hs.afterFgets read⟩, rfl, rfl, strcpy_zero_length _ hfits,
    s.messageToSnd.1.drop (0 + (ChatProject.rendered s.userName (s.afterFgets read) ++ [0]).length),
    ?_⟩
  simp [strcpy, store]

end Sender

theorem Listener.receive_printed {l : Listener} {datagram s beyond : Bytes} (hs : 0 ∉ s)
    (hlen : datagram.length = msgBuffSize) (hd : datagram = s ++ 0 :: beyond) :
    (l.receive datagram).printed = l.printed ++ s := by
  have htake : datagram.take msgBuffSize = datagram := List.take_of_length_le hlen.le
  rw [receive, htake, hd]
  simp only [store, List.take_zero, List.nil_append, cstr, List.drop_zero, List.append_assoc,
    List.cons_append]
  rw [text_append_zero _ _ hs]

end ChatProject
