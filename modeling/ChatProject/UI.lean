import ChatProject.EndToEnd

/-!
# The user interface

`RunUI` reads what its user types with one `scanf` after another and calls the client's
functions. The state is the place where the program waits, for a word or for the server. The
typed words stay in the input until a `scanf` consumes them; the user never ends the input,
and a typed number fits an `int`. `Init_username`, `Init_Psw` and `Init_GroupName` read into a
block of one byte, so how many bytes of it can be written is up to the allocator.
-/

namespace ChatProject
open Memory

def isSpace (c : UInt8) : Bool := c = 32 || (9 ≤ c && c ≤ 13)

structure TypedName (n : ℕ) where
  val : CStr
  short : val.length < n
  zero : 0 ∉ val
  nonempty : val ≠ []
  unbroken : ∀ c ∈ val, isSpace c = false

def TypedName.text {n : ℕ} (s : TypedName n) : Text n := ⟨s.val, s.short, s.zero⟩

structure Word where
  val : CStr
  zero : 0 ∉ val
  nonempty : val ≠ []
  unbroken : ∀ c ∈ val, isSpace c = false

namespace UI

def registeredOp : ℤ := 0
def loginOp : ℤ := 1
def maxSize : ℕ := 16

def isDigit (c : UInt8) : Bool := 48 ≤ c && c ≤ 57

def digitsValue (ds : CStr) : ℕ := ds.foldl (fun n d => 10 * n + (d.toNat - 48)) 0

def unsigned : CStr → CStr
  | 43 :: cs | 45 :: cs => cs
  | cs => cs

/-- `scanf( "%d" )` on a word: the number, if there is one, and what is left of the word. A
sign is consumed in any case. -/
def scanInt (w : CStr) : Option ℤ × CStr :=
  let ds := (unsigned w).takeWhile isDigit
  if ds = [] then (none, unsigned w)
  else (some (if w.head? = some 45 then -digitsValue ds else digitsValue ds),
    (unsigned w).dropWhile isDigit)

theorem unsigned_suffix (w : CStr) : unsigned w <:+ w := by
  rw [unsigned.eq_def]
  split
  · exact List.suffix_cons _ _
  · exact List.suffix_cons _ _
  · exact List.suffix_rfl

theorem scanInt_suffix (w : CStr) : (scanInt w).2 <:+ w := by
  simp only [scanInt]
  split_ifs
  · exact unsigned_suffix w
  · exact (List.dropWhile_suffix _).trans (unsigned_suffix w)
  · exact (List.dropWhile_suffix _).trans (unsigned_suffix w)

end UI

/-- The word without what a `scanf( "%d" )` consumes of it, if anything is left. -/
def Word.afterInt (w : Word) : List Word :=
  if h : (UI.scanInt w.val).2 = [] then []
  else
    have hsuffix := UI.scanInt_suffix w.val
    [⟨(UI.scanInt w.val).2, fun h0 => w.zero (hsuffix.subset h0), h,
      fun c hc => w.unbroken c (hsuffix.subset hc)⟩]

inductive Operation
  | register (userName psw : TypedName 17)
  | logIn (userName psw : TypedName 17)
  | create (userName : TypedName 17) (groupName : TypedName 18)
  | join (userName : TypedName 17) (groupName : TypedName 18)
  | leave (userName : TypedName 17) (groupName : TypedName 18)

/-- The client's call, with what the memory held that the request struct is put into. -/
def Operation.call (user : Block Protocol.sizeofUserDetails)
    (group : Block Protocol.sizeofGroupDetails) : Operation → ClientCall
  | register userName psw => .register user userName.text psw.text
  | logIn userName psw => .logIn user userName.text psw.text
  | create userName groupName => .create group userName.text groupName.text
  | join userName groupName => .join group userName.text groupName.text
  | leave userName groupName => .leave group userName.text groupName.text

/-- `overrun` is a `scanf( "%s" )` that writes beyond its buffer. -/
inductive Screen
  | entry
  | wrongAnswer
  | userName
  | password (userName : TypedName 17)
  | loginOffer (userName psw : TypedName 17)
  | menu (userName : TypedName 17)
  | groupToCreate (userName : TypedName 17)
  | groupToJoin (userName : TypedName 17)
  | groupToExitFrom (userName : TypedName 17)
  | waiting (op : Operation)
  | overrun

/-- `shown` are the results that the user has been told, colours left out. -/
structure UI where
  answer : ℤ
  choice : ℤ
  screen : Screen
  typed : List Word
  shown : List String

namespace UI

/-- `choice` is not initialised. -/
def start (choice : ℤ) : UI := ⟨5, choice, .entry, [], []⟩

def typeWord (u : UI) (w : Word) : UI := { u with typed := u.typed ++ [w] }

/-- The next word becomes the name unless it is longer than the strings asked for, in which
case it is asked for again. -/
def readName (n : ℕ) (w : Word) (again : Screen) (next : TypedName n → Screen) : Screen :=
  if h : w.val.length < n then next ⟨w.val, h, w.zero, w.nonempty, w.unbroken⟩ else again

/-- The buffer has room for the word and its terminator. -/
def scanWord (room : ℕ) (w : Word) (stored : Screen) : Screen :=
  if room < w.val.length + 1 then .overrun else stored

def answered (u : UI) : Screen :=
  if u.answer ≠ registeredOp ∧ u.answer ≠ loginOp then .wrongAnswer else .userName

def enter (u : UI) (userName psw : TypedName 17) : Screen :=
  if u.answer = registeredOp then .waiting (.register userName psw)
  else .waiting (.logIn userName psw)

def chosen (u : UI) (userName : TypedName 17) : Screen :=
  if u.choice = 1 then .groupToCreate userName
  else if u.choice = 2 then .groupToJoin userName
  else if u.choice = 3 then .groupToExitFrom userName
  else .menu userName

/-- One `scanf`, if a word is there. A number that is not there leaves the variable as it
was. `room` is what the allocator gives for one byte. -/
def scan (room : ℕ) (u : UI) : UI :=
  match u.typed with
  | [] => u
  | w :: ws =>
    let number := (scanInt w.val).1
    match u.screen with
    | .entry | .wrongAnswer =>
      let u := { u with answer := number.getD u.answer, typed := w.afterInt ++ ws }
      { u with screen := u.answered }
    | .userName =>
      { u with typed := ws, screen := scanWord room w (readName 17 w .userName .password) }
    | .password userName =>
      { u with
        typed := ws
        screen := scanWord room w (readName 17 w (.password userName) (u.enter userName)) }
    | .loginOffer userName psw =>
      let u := { u with answer := number.getD u.answer, typed := w.afterInt ++ ws }
      { u with
        screen := if u.answer = loginOp then .waiting (.logIn userName psw) else .menu userName }
    | .menu userName =>
      let u := { u with choice := number.getD u.choice, typed := w.afterInt ++ ws }
      { u with screen := u.chosen userName }
    | .groupToCreate userName =>
      { u with
        typed := ws
        screen := scanWord room w (readName 18 w (.groupToCreate userName)
          fun groupName => .waiting (.create userName groupName)) }
    | .groupToJoin userName =>
      { u with
        typed := ws
        screen := scanWord (maxSize + 1) w (readName 18 w .overrun
          fun groupName => .waiting (.join userName groupName)) }
    | .groupToExitFrom userName =>
      { u with
        typed := ws
        screen := scanWord (maxSize + 1) w (readName 18 w .overrun
          fun groupName => .waiting (.leave userName groupName)) }
    | .waiting _ | .overrun => u

def told (res : ClientErr) : Operation → List String
  | .register .. =>
    if res = .success then ["\t\tSuccessfully registeration\n"]
    else if res = .fail then ["\t\tFail! try again\n"]
    else []
  | .logIn .. =>
    match res with
    | .success => ["\t\tCLIENT SUCCESS\n"]
    | .wrongPsw => ["\t\tCLIENT WRONG PSW\n"]
    | .userNameNotExist => ["\t\tCLIENT USER NAME NOT EXIST\n"]
    | .allreadyConnected => ["\t\tCLIENT ALLREADY CONNECTED\n"]
    | _ => []
  | .create .. =>
    if res = .success then ["\t\tGroup create successfully\n"]
    else ["\t\tGroup already exist\n"]
  | .join .. =>
    if res = .success then ["\t\tYou are connected to a group now\n"]
    else ["\t\tGroup already exist\n"]
  | .leave .. =>
    if res = .success then ["\t\tleave successfully\n"]
    else ["\t\tGroup not exist on your group list\n"]

def afterCall (res : ClientErr) : Operation → Screen
  | .register userName psw => if res = .fail then .entry else .loginOffer userName psw
  | .logIn userName _ => if res = .success then .menu userName else .entry
  | .create userName _ | .join userName _ | .leave userName _ => .menu userName

def resume (u : UI) (res : ClientErr) : UI :=
  match u.screen with
  | .waiting op => { u with screen := afterCall res op, shown := u.shown ++ told res op }
  | _ => u

end UI
end ChatProject
