import Mathlib.Data.List.Basic
import Mathlib.Data.List.TakeWhile
import Mathlib.Data.Int.ModEq
import Mathlib.Tactic

/-!
# Configuration files

The constructor of a `Configuration` reads a file line by line. The positions it searches for are
kept in 32 bits and compared with the `npos` of 64 bits, so a search that finds nothing is never
noticed as such. Here the constructor is compared with the grammar of the files.

* `Configuration.ofFile` : the constructor;
* `Grammar`, `Says` : the lines of a configuration file, and what a file of such lines says;
* `looseRead` : what the constructor makes of a line;
* `ofFile_exact_iff` : the files that are read exactly;
* `ofFile_exact_iff_of_short` : the same without the lines that 32 bits do not reach.
-/

namespace D2PC.ConfigFile

/-! ### The constructor -/

/-- A line of the file, without its end. -/
abbrev Line := List Char

structure ReplicaAddress where
  host : List Char
  port : List Char
  deriving DecidableEq, Repr

structure Configuration where
  n : ℤ
  f : ℤ
  replicas : List ReplicaAddress
  multicastAddress : Option ReplicaAddress
  deriving DecidableEq, Repr

/-- How the constructor ends without a configuration: `Panic` stops the process, and
`std::out_of_range` is not caught. -/
inductive Failure
  | panic (message : String)
  | outOfRange
  deriving DecidableEq, Repr

def npos : ℕ := 2 ^ 64 - 1

/-- A number as an `unsigned int`. -/
def unsignedInt (n : ℕ) : ℕ := n % 2 ^ 32

/-- A number as an `int`. -/
def int (n : ℕ) : ℤ :=
  if unsignedInt n < 2 ^ 31 then unsignedInt n else (unsignedInt n : ℤ) - 2 ^ 32

/-- The first position from `pos` on with such a character. -/
def find (p : Char → Bool) (line : Line) (pos : ℕ) : ℕ :=
  let i := pos + (line.drop pos).findIdx p
  if i < line.length then i else npos

def substr (line : Line) (pos count : ℕ) : Except Failure (List Char) :=
  if line.length < pos then .error .outOfRange else .ok ((line.drop pos).take count)

/-- The characters up to the first NUL, which is what `c_str` shows of a string. -/
def cString (s : List Char) : List Char := s.takeWhile (· ≠ '\x00')

/-- `strcasecmp` with a word in lower case. -/
def sameWord (s : List Char) (word : String) : Bool :=
  s.map Char.toLower = word.toList

def isBlank (c : Char) : Bool := c = ' ' || c = '\t'

def notBlank (c : Char) : Bool := !isBlank c

def isColon (c : Char) : Bool := c = ':'

def notColon (c : Char) : Bool := !isColon c

inductive StoulError
  | invalidArgument
  | outOfRange
  deriving DecidableEq, Repr

def isSpace (c : Char) : Bool := c ∈ [' ', '\t', '\n', '\x0b', '\x0c', '\r']

/-- `std::stoul` in base ten: blanks, a sign, digits, and whatever follows them. -/
def stoul (s : List Char) : Except StoulError ℕ :=
  let s := s.dropWhile isSpace
  let negative := s.head? = some '-'
  let s := if s.head? = some '-' ∨ s.head? = some '+' then s.tail else s
  let digits := s.takeWhile Char.isDigit
  if digits = [] then .error .invalidArgument
  else
    let value := digits.foldl (fun v c => 10 * v + (c.toNat - '0'.toNat)) 0
    if 2 ^ 64 ≤ value then .error .outOfRange
    else .ok (if negative then (2 ^ 64 - value) % 2 ^ 64 else value)

/-- What a line asks for. -/
inductive Directive
  | ignored
  | f (value : ℕ)
  | replica (address : ReplicaAddress)
  | multicast (address : ReplicaAddress)
  deriving DecidableEq, Repr

/-- The `f` branch, from the end of the directive's name. -/
def readF (line : Line) (t1 : ℕ) : Except Failure ℕ :=
  let t2 := unsignedInt (find notBlank line t1)
  if t2 = npos then .error (.panic "'f' configuration line requires an argument")
  else do
    let arg ← substr line t2 npos
    match stoul arg with
    | .ok value => .ok value
    | .error .invalidArgument => .error (.panic "Invalid argument to 'f' configuration line")
    | .error .outOfRange => .error .outOfRange

/-- The `replica` and `multicast` branches, from the end of the directive's name. -/
def readAddress (missing : String) (line : Line) (t1 : ℕ) : Except Failure ReplicaAddress :=
  let t2 := unsignedInt (find notBlank line t1)
  if t2 = npos then .error (.panic missing)
  else
    let t3 := unsignedInt (find isColon line t2)
    if t3 = npos then .error (.panic "Configuration line format: 'replica host:port'")
    else do
      let host ← substr line t2 (unsignedInt (t3 + 2 ^ 32 - t2))
      let port ← substr line (unsignedInt (t3 + 1)) npos
      return ⟨host, port⟩

/-- One turn of the loop, up to what it sets. -/
def readLine (line : Line) : Except Failure Directive :=
  if line.length = 0 ∨ line.head? = some '#' then .ok .ignored
  else do
    let t1 := unsignedInt (find isBlank line 0)
    let cmd ← substr line 0 t1
    if sameWord (cString cmd) "f" then return .f (← readF line t1)
    else if sameWord (cString cmd) "replica" then
      return .replica
        (← readAddress "'replica' configuration line requires an argument" line t1)
    else if sameWord (cString cmd) "multicast" then
      return .multicast
        (← readAddress "'multicast' configuration line requires an argument" line t1)
    else
      .error (.panic ("Unknown configuration directive: " ++ String.ofList (cString cmd)))

def Configuration.set (c : Configuration) : Directive → Configuration
  | .ignored => c
  | .f value => { c with f := int value }
  | .replica address => { c with replicas := c.replicas ++ [address] }
  | .multicast address => { c with multicastAddress := some address }

/-- The lines `getline` returns until the end of the file. -/
def lines (text : List Char) : List Line := text.splitOn '\n'

/-- `Configuration::Configuration(std::ifstream &)`. -/
def Configuration.ofFile (text : List Char) : Except Failure Configuration := do
  let start : Configuration := { n := 0, f := -1, replicas := [], multicastAddress := none }
  let c ← (lines text).foldlM (fun c line => do return c.set (← readLine line)) start
  let c := { c with n := int c.replicas.length }
  if c.n = 0 then .error (.panic "Configuration did not specify any replicas")
  else if c.f = -1 then .error (.panic "Configuration did not specify a 'f' parameter")
  else return c

/-! ### The grammar -/

/-- A line of a configuration file. -/
inductive Grammar : Line → Directive → Prop
  | empty : Grammar [] .ignored
  | comment (rest : Line) : Grammar ('#' :: rest) .ignored
  | f {name blanks arg : List Char} {value : ℕ} (hname : sameWord name "f")
      (hblanks : blanks ≠ []) (hall : ∀ c ∈ blanks, isBlank c)
      (harg : ∀ c ∈ arg.head?, notBlank c) (hvalue : stoul arg = .ok value) :
      Grammar (name ++ (blanks ++ arg)) (.f value)
  | replica {name blanks host port : List Char} (hname : sameWord name "replica")
      (hblanks : blanks ≠ []) (hall : ∀ c ∈ blanks, isBlank c)
      (harg : ∀ c ∈ (host ++ ':' :: port).head?, notBlank c) (hhost : ∀ c ∈ host, notColon c) :
      Grammar (name ++ (blanks ++ (host ++ ':' :: port))) (.replica ⟨host, port⟩)
  | multicast {name blanks host port : List Char} (hname : sameWord name "multicast")
      (hblanks : blanks ≠ []) (hall : ∀ c ∈ blanks, isBlank c)
      (harg : ∀ c ∈ (host ++ ':' :: port).head?, notBlank c) (hhost : ∀ c ∈ host, notColon c) :
      Grammar (name ++ (blanks ++ (host ++ ':' :: port))) (.multicast ⟨host, port⟩)

/-- What the lines say together: the last `f`, the replicas in order, the last multicast
address. -/
structure Contents where
  f : Option ℕ := none
  replicas : List ReplicaAddress := []
  multicast : Option ReplicaAddress := none
  deriving DecidableEq

def Contents.add (k : Contents) : Directive → Contents
  | .ignored => k
  | .f value => { k with f := some value }
  | .replica address => { k with replicas := k.replicas ++ [address] }
  | .multicast address => { k with multicast := some address }

def contents (ds : List Directive) : Contents := ds.foldl Contents.add {}

/-- There is a replica line and an `f` line. -/
def Contents.Complete (k : Contents) : Prop := k.replicas ≠ [] ∧ k.f.isSome

/-- Every line of the file is in the grammar, the file is complete, and this is what it says. -/
def Says (text : List Char) (k : Contents) : Prop :=
  (∃ ds, List.Forall₂ Grammar (lines text) ds ∧ k = contents ds) ∧ k.Complete

/-- A configuration is what the file says, number by number. -/
def Configuration.Is (c : Configuration) (k : Contents) : Prop :=
  c.n = k.replicas.length ∧ some c.f = k.f.map (↑) ∧ c.replicas = k.replicas ∧
    c.multicastAddress = k.multicast

/-- **The file is parsed exactly**: the constructor ends with the configuration the file says,
and without one if the file says nothing. -/
def Exact (text : List Char) : Prop :=
  ∀ c, Configuration.ofFile text = .ok c ↔ ∃ k, Says text k ∧ c.Is k

/-! ### A line read loosely -/

/-- The argument of a line: what follows the blanks after the directive's name. -/
def argument (line : Line) : List Char := (line.dropWhile notBlank).dropWhile isBlank

/-- Without a colon, everything is the host and the whole line is the port. -/
def looseAddress (line : Line) : Option ReplicaAddress :=
  let arg := argument line
  if arg = [] then none
  else if ':' ∈ arg then some ⟨arg.takeWhile notColon, (arg.dropWhile notColon).tail⟩
  else some ⟨arg, line⟩

/-- The grammar without its care: the name of the directive ends at a NUL or a blank, and an
address needs no colon. -/
def looseCut (line : Line) : Option Directive :=
  if line = [] ∨ line.head? = some '#' then some .ignored
  else
    let name := cString (line.takeWhile notBlank)
    if sameWord name "f" then (stoul (argument line)).toOption.map .f
    else if sameWord name "replica" then (looseAddress line).map .replica
    else if sameWord name "multicast" then (looseAddress line).map .multicast
    else none

/-- Where such a character comes next, as far as 32 bits tell. -/
def position (p : Char → Bool) (line : Line) (pos : ℕ) : ℕ := unsignedInt (find p line pos)

/-- So many characters of a line, from a position in it. -/
def piece (line : Line) (start count : ℕ) : Option (List Char) :=
  if line.length < start then none else some ((line.drop start).take count)

/-- The host is up to the colon, and the port behind it, as far as 32 bits tell. -/
def wrappedAddress (line : Line) : Option ReplicaAddress := do
  let start := position notBlank line (position isBlank line 0)
  let colon := position isColon line start
  let host ← piece line start (unsignedInt (colon + 2 ^ 32 - start))
  let port ← piece line (unsignedInt (colon + 1)) npos
  return ⟨host, port⟩

/-- A line cut at positions modulo `2 ^ 32`. -/
def wrappedCut (line : Line) : Option Directive :=
  if line = [] ∨ line.head? = some '#' then some .ignored
  else
    let name := cString (line.take (position isBlank line 0))
    if sameWord name "f" then
      ((piece line (position notBlank line (position isBlank line 0)) npos).bind fun arg =>
        (stoul arg).toOption).map .f
    else if sameWord name "replica" then (wrappedAddress line).map .replica
    else if sameWord name "multicast" then (wrappedAddress line).map .multicast
    else none

/-- What a line comes to. In one of `2 ^ 32 - 1` characters or more the positions do not fit 32
bits. -/
def looseRead (line : Line) : Option Directive :=
  if 2 ^ 32 - 1 ≤ line.length then wrappedCut line else looseCut line

theorem stoul_nil : stoul [] = .error .invalidArgument := by
  simp [stoul]

/-- A search that finds something stops at the first such character; one that finds nothing gives
`npos`. -/
theorem find_cases (p : Char → Bool) (line : Line) (pos : ℕ) :
    (find p line pos = npos ∧ ∀ c ∈ line.drop pos, p c = false) ∨
    ∃ i, find p line pos = pos + i ∧ pos + i < line.length ∧
      (line.drop pos).take i = (line.drop pos).takeWhile (fun c => !p c) ∧
      line.drop (pos + i) = (line.drop pos).dropWhile (fun c => !p c) ∧
      ∃ c ∈ line.drop pos, p c = true := by
  rw [List.takeWhile_eq_take_findIdx_not, List.dropWhile_eq_drop_findIdx_not]
  simp only [Bool.not_not]
  by_cases hfound : pos + (line.drop pos).findIdx p < line.length
  · right
    refine ⟨(line.drop pos).findIdx p, ?_, hfound, rfl, ?_, ?_⟩
    · rw [find, if_pos hfound]
    · rw [List.drop_drop]
    · have hlt : (line.drop pos).findIdx p < (line.drop pos).length := by
        rw [List.length_drop]
        omega
      exact ⟨_, List.getElem_mem hlt, List.findIdx_getElem⟩
  · left
    refine ⟨by rw [find, if_neg hfound], fun c hc => ?_⟩
    have hlast : (line.drop pos).findIdx p = (line.drop pos).length := by
      have := @List.findIdx_le_length _ p (line.drop pos)
      rw [List.length_drop] at this ⊢
      omega
    have hnone := List.findIdx_eq_length.mp hlast
    exact hnone c hc

theorem unsignedInt_npos : unsignedInt npos = 2 ^ 32 - 1 := rfl

theorem unsignedInt_of_lt {k : ℕ} (hk : k < 2 ^ 32) : unsignedInt k = k := Nat.mod_eq_of_lt hk

section Short

variable {line : Line} (hshort : line.length < 2 ^ 32 - 1)

include hshort

/-- The name of the directive is the text before the first blank. -/
theorem substr_name :
    substr line 0 (unsignedInt (find isBlank line 0)) = .ok (line.takeWhile notBlank) := by
  rw [substr, if_neg (Nat.not_lt_zero _)]
  congr 1
  obtain ⟨hfind, hnone⟩ | ⟨i, hfind, hlt, htake, -, -⟩ := find_cases isBlank line 0
  · rw [hfind, unsignedInt_npos, List.drop_zero, List.take_of_length_le (by omega)]
    symm
    rw [List.takeWhile_eq_self_iff]
    intro c hc
    show (!isBlank c) = true
    rw [hnone c hc]
    rfl
  · rw [hfind, Nat.zero_add, unsignedInt_of_lt (by omega), htake]
    rfl

/-- The position of the argument. -/
theorem argument_cases :
    (argument line = [] ∧
      unsignedInt (find notBlank line (unsignedInt (find isBlank line 0))) = 2 ^ 32 - 1) ∨
    ∃ t, unsignedInt (find notBlank line (unsignedInt (find isBlank line 0))) = t ∧
      t < line.length ∧ line.drop t = argument line := by
  have hblank : (fun c => !notBlank c) = isBlank := by
    funext c
    exact Bool.not_not _
  obtain ⟨hfind, hnone⟩ | ⟨i, hfind, hlt, -, hdrop, -⟩ := find_cases isBlank line 0
  · left
    have hrest : line.dropWhile notBlank = [] := by
      rw [List.dropWhile_eq_nil_iff]
      intro c hc
      show (!isBlank c) = true
      rw [hnone c hc]
      rfl
    refine ⟨by rw [argument, hrest]; rfl, ?_⟩
    rw [hfind, unsignedInt_npos]
    obtain ⟨hnext, -⟩ | ⟨i, -, hlt, -⟩ := find_cases notBlank line (2 ^ 32 - 1)
    · rw [hnext, unsignedInt_npos]
    · omega
  · have hrest : line.drop i = line.dropWhile notBlank := by
      rw [Nat.zero_add] at hdrop
      exact hdrop
    have hstart : unsignedInt (find isBlank line 0) = i := by
      rw [hfind, Nat.zero_add, unsignedInt_of_lt (by omega)]
    rw [hstart]
    obtain ⟨hnext, hnone⟩ | ⟨j, hnext, hlt', -, hdrop', -⟩ := find_cases notBlank line i
    · left
      refine ⟨?_, by rw [hnext, unsignedInt_npos]⟩
      rw [argument, ← hrest, List.dropWhile_eq_nil_iff]
      intro c hc
      have := hnone c hc
      rw [notBlank] at this
      simpa using this
    · right
      refine ⟨i + j, by rw [hnext, unsignedInt_of_lt (by omega)], hlt', ?_⟩
      rw [hdrop', hrest, hblank]
      rfl

theorem readF_eq :
    (readF line (unsignedInt (find isBlank line 0))).toOption =
      (stoul (argument line)).toOption := by
  obtain ⟨harg, ht⟩ | ⟨t, ht, hlt, hdrop⟩ := argument_cases hshort
  · rw [readF, ht, harg, stoul_nil]
    simp only [substr]
    rw [if_neg (by decide), if_pos (by omega)]
    rfl
  · rw [readF, ht]
    simp only [substr]
    rw [if_neg (by simp only [npos]; omega), if_neg (by omega), hdrop,
      List.take_of_length_le (by rw [← hdrop, List.length_drop, npos]; omega)]
    simp only [bind, Except.bind]
    cases stoul (argument line) with
    | ok value => rfl
    | error e => cases e <;> rfl

theorem readAddress_eq (missing : String) :
    (readAddress missing line (unsignedInt (find isBlank line 0))).toOption =
      looseAddress line := by
  obtain ⟨harg, ht⟩ | ⟨t, ht, hlt, hdrop⟩ := argument_cases hshort
  · -- the host would start behind the end of the line
    have hout : ∀ count, substr line (2 ^ 32 - 1) count = .error .outOfRange := fun count => by
      rw [substr, if_pos hshort]
    have hcolon : unsignedInt (find isColon line (2 ^ 32 - 1)) ≠ npos := by
      have : unsignedInt (find isColon line (2 ^ 32 - 1)) < 2 ^ 32 := Nat.mod_lt _ (by decide)
      rw [npos]
      omega
    rw [readAddress, ht, looseAddress, harg]
    simp only [hout]
    rw [if_neg (by decide), if_neg hcolon]
    rfl
  · have hlen : (argument line).length = line.length - t := by
      rw [← hdrop, List.length_drop]
    have hne : argument line ≠ [] := by
      intro hnil
      rw [hnil] at hlen
      simp only [List.length_nil] at hlen
      omega
    have hline : substr line t = fun count => .ok ((argument line).take count) := by
      funext count
      rw [substr, if_neg (by omega), hdrop]
    rw [readAddress, ht, looseAddress]
    simp only [hline, if_neg hne]
    rw [if_neg (by rw [npos]; omega)]
    obtain ⟨hfind, hnone⟩ | ⟨i, hfind, hlt', htake, hdrop', c, hc, hcolon⟩ :=
      find_cases isColon line t
    · -- the end of the host wraps around to the start of the line
      rw [hdrop] at hnone
      have hno : ':' ∉ argument line := fun hmem => by
        have : isColon ':' = false := hnone _ hmem
        cases this
      have hend : unsignedInt (2 ^ 32 - 1 + 2 ^ 32 - t) = 2 ^ 32 - 1 - t := by
        rw [unsignedInt]
        omega
      have hport : substr line (unsignedInt (2 ^ 32 - 1 + 1)) npos = .ok line := by
        show substr line 0 npos = _
        rw [substr, if_neg (Nat.not_lt_zero _), List.drop_zero,
          List.take_of_length_le (by rw [npos]; omega)]
      rw [hfind, unsignedInt_npos, if_neg (by decide), hend, hport, if_neg hno,
        List.take_of_length_le (by omega)]
      rfl
    · rw [hdrop] at htake hdrop' hc
      have hyes : ':' ∈ argument line := by
        have : c = ':' := by simpa [isColon] using hcolon
        rw [← this]
        exact hc
      have hend : unsignedInt (t + i + 2 ^ 32 - t) = i := by
        rw [unsignedInt]
        omega
      have hport : substr line (unsignedInt (t + i + 1)) npos =
          .ok ((argument line).dropWhile notColon).tail := by
        rw [unsignedInt_of_lt (by omega), substr, if_neg (by omega), List.take_of_length_le
          (by rw [List.length_drop, npos]; omega), ← List.drop_drop, hdrop', List.drop_one]
        rfl
      rw [hfind, unsignedInt_of_lt (k := t + i) (by omega), if_neg (by rw [npos]; omega), hend,
        hport, if_pos hyes, htake]
      rfl

end Short

theorem toOption_map {α β : Type} (x : Except Failure α) (g : α → β) :
    (do return g (← x) : Except Failure β).toOption = x.toOption.map g := by
  cases x <;> rfl

theorem substr_toOption (line : Line) (start count : ℕ) :
    (substr line start count).toOption = piece line start count := by
  unfold substr piece
  split_ifs with hout
  · rfl
  · rfl

theorem toOption_bind {α β : Type} (x : Except Failure α) (g : α → Except Failure β) :
    (x >>= g).toOption = x.toOption.bind fun a => (g a).toOption := by
  cases x <;> rfl

/-- No position is `npos`. -/
theorem unsignedInt_ne_npos (k : ℕ) : unsignedInt k ≠ npos := by
  have hlt : unsignedInt k < 2 ^ 32 := Nat.mod_lt _ (by decide)
  rw [npos]
  omega

theorem readF_wrapped (line : Line) :
    (readF line (unsignedInt (find isBlank line 0))).toOption =
      (piece line (position notBlank line (position isBlank line 0)) npos).bind fun arg =>
        (stoul arg).toOption := by
  simp only [readF, if_neg (unsignedInt_ne_npos _), toOption_bind, substr_toOption]
  refine congrArg (Option.bind _) (funext fun arg => ?_)
  cases stoul arg with
  | ok value => rfl
  | error e => cases e <;> rfl

theorem readAddress_wrapped (missing : String) (line : Line) :
    (readAddress missing line (unsignedInt (find isBlank line 0))).toOption =
      wrappedAddress line := by
  simp only [readAddress, if_neg (unsignedInt_ne_npos _), toOption_bind, substr_toOption]
  rfl

/-- A line of any length, in terms of positions. -/
theorem readLine_wrapped (line : Line) : (readLine line).toOption = wrappedCut line := by
  rw [readLine, wrappedCut]
  by_cases hskip : line = [] ∨ line.head? = some '#'
  · rw [if_pos hskip, if_pos (hskip.imp List.length_eq_zero_iff.mpr id)]
    rfl
  · rw [if_neg hskip, if_neg (fun h => hskip (h.imp List.length_eq_zero_iff.mp id))]
    have hname : substr line 0 (unsignedInt (find isBlank line 0)) =
        .ok (line.take (position isBlank line 0)) := by
      rw [substr, if_neg (Nat.not_lt_zero _)]
      rfl
    simp only [hname]
    simp only [bind, Except.bind]
    split_ifs with hf hreplica hmulticast
    · rw [← readF_wrapped]
      exact toOption_map _ _
    · rw [← readAddress_wrapped "'replica' configuration line requires an argument"]
      exact toOption_map _ _
    · rw [← readAddress_wrapped "'multicast' configuration line requires an argument"]
      exact toOption_map _ _
    · rfl

/-- The constructor reads every line loosely. -/
theorem readLine_toOption (line : Line) : (readLine line).toOption = looseRead line := by
  rw [looseRead]
  by_cases hlong : 2 ^ 32 - 1 ≤ line.length
  · rw [if_pos hlong, readLine_wrapped]
  · rw [if_neg hlong, readLine, looseCut]
    have hshort : line.length < 2 ^ 32 - 1 := by omega
    by_cases hskip : line = [] ∨ line.head? = some '#'
    · rw [if_pos hskip, if_pos (hskip.imp List.length_eq_zero_iff.mpr id)]
      rfl
    · rw [if_neg hskip, if_neg (fun h => hskip (h.imp List.length_eq_zero_iff.mp id))]
      simp only [substr_name hshort]
      simp only [bind, Except.bind]
      split_ifs with hf hreplica hmulticast
      · rw [← readF_eq hshort]
        exact toOption_map _ _
      · rw [← readAddress_eq hshort "'replica' configuration line requires an argument"]
        exact toOption_map _ _
      · rw [← readAddress_eq hshort "'multicast' configuration line requires an argument"]
        exact toOption_map _ _
      · rfl

/-! ### Lines of the grammar -/

section Words

variable {name word : List Char} {c : Char}

/-- The words of the grammar have no blank, no NUL and no `#` in them. -/
theorem clean_of_word {word : String} (hword : word ∈ ["f", "replica", "multicast"])
    (hname : sameWord name word) :
    name ≠ [] ∧ ∀ c ∈ name, notBlank c ∧ c ≠ '\x00' ∧ c ≠ '#' := by
  have hmap : name.map Char.toLower = word.toList := of_decide_eq_true hname
  have hplain : word.toList ≠ [] ∧
      ∀ c : Char, c = ' ' ∨ c = '\t' ∨ c = '\x00' ∨ c = '#' → c.toLower ∉ word.toList := by
    simp only [List.mem_cons, List.not_mem_nil, or_false] at hword
    rcases hword with rfl | rfl | rfl <;>
      exact ⟨by decide, by rintro c (rfl | rfl | rfl | rfl) <;> decide⟩
  constructor
  · rintro rfl
    exact hplain.1 hmap.symm
  · intro c hc
    have hmem : c.toLower ∈ word.toList := by
      rw [← hmap]
      exact List.mem_map_of_mem hc
    have hnot := fun h => hplain.2 c h hmem
    refine ⟨?_, fun h => hnot (by tauto), fun h => hnot (by tauto)⟩
    rw [notBlank, isBlank]
    simp only [Bool.not_or, Bool.and_eq_true, Bool.not_eq_true', decide_eq_false_iff_not]
    exact ⟨fun h => hnot (by tauto), fun h => hnot (by tauto)⟩

theorem sameWord_inj {word other : String} (h : sameWord name word) (h' : sameWord name other) :
    word = other := by
  have hword : name.map Char.toLower = word.toList := of_decide_eq_true h
  have hother : name.map Char.toLower = other.toList := of_decide_eq_true h'
  exact String.toList_inj.mp (hword.symm.trans hother)

end Words

/-- A directive with its argument, as `looseCut` sees it. -/
theorem cut_directive {name blanks arg : List Char} {word : String}
    (hword : word ∈ ["f", "replica", "multicast"]) (hname : sameWord name word)
    (hblanks : blanks ≠ []) (hall : ∀ c ∈ blanks, isBlank c) (harg : ∀ c ∈ arg.head?, notBlank c) :
    let line := name ++ (blanks ++ arg)
    ¬(line = [] ∨ line.head? = some '#') ∧ cString (line.takeWhile notBlank) = name ∧
      argument line = arg := by
  intro line
  obtain ⟨hne, hclean⟩ := clean_of_word hword hname
  obtain ⟨b, bs, rfl⟩ := List.exists_cons_of_ne_nil hblanks
  obtain ⟨a, as, rfl⟩ := List.exists_cons_of_ne_nil hne
  have hb : notBlank b = false := by
    rw [notBlank, hall b List.mem_cons_self]
    rfl
  have hstop : ¬notBlank b = true := by
    rw [hb]
    exact Bool.false_ne_true
  have htake : line.takeWhile notBlank = a :: as := by
    have hrest : (b :: bs ++ arg).takeWhile notBlank = [] := List.takeWhile_cons_of_neg hstop
    show ((a :: as) ++ (b :: bs ++ arg)).takeWhile notBlank = a :: as
    rw [List.takeWhile_append_of_pos fun c hc => (hclean c hc).1, hrest, List.append_nil]
  refine ⟨?_, ?_, ?_⟩
  · rintro (h | h)
    · exact List.cons_ne_nil _ _ h
    · have : a = '#' := Option.some.inj h
      exact (hclean a List.mem_cons_self).2.2 this
  · rw [htake, cString, List.takeWhile_eq_self_iff]
    intro c hc
    exact decide_eq_true (hclean c hc).2.1
  · show (((a :: as) ++ (b :: bs ++ arg)).dropWhile notBlank).dropWhile isBlank = arg
    have hrest : (b :: bs ++ arg).dropWhile notBlank = b :: bs ++ arg :=
      List.dropWhile_cons_of_neg hstop
    rw [List.dropWhile_append_of_pos fun c hc => (hclean c hc).1, hrest,
      List.dropWhile_append_of_pos fun c hc => hall c hc]
    cases arg with
    | nil => rfl
    | cons c rest =>
      have hc : notBlank c = true := harg c rfl
      rw [List.dropWhile_cons_of_neg]
      intro hblank
      rw [notBlank, hblank] at hc
      cases hc

theorem looseAddress_of_colon {line host port : List Char}
    (harg : argument line = host ++ ':' :: port) (hhost : ∀ c ∈ host, notColon c) :
    looseAddress line = some ⟨host, port⟩ := by
  have hcolon : ¬notColon ':' = true := by decide
  rw [looseAddress, harg, if_neg (by simp), if_pos (by simp), List.takeWhile_append_of_pos hhost,
    List.dropWhile_append_of_pos hhost, List.takeWhile_cons_of_neg hcolon,
    List.dropWhile_cons_of_neg hcolon, List.append_nil]
  rfl

/-- What the grammar has is read as it says, without care as well. -/
theorem Grammar.cut {line : Line} {d : Directive} (h : Grammar line d) :
    looseCut line = some d := by
  cases h with
  | empty => rfl
  | comment rest => rfl
  | f hname hblanks hall harg hvalue =>
    obtain ⟨hline, hcmd, hrest⟩ := cut_directive (by decide) hname hblanks hall harg
    rw [looseCut, if_neg hline, hcmd, hrest]
    simp only
    rw [if_pos hname, hvalue]
    rfl
  | replica hname hblanks hall harg hhost =>
    obtain ⟨hline, hcmd, hrest⟩ := cut_directive (by decide) hname hblanks hall harg
    rw [looseCut, if_neg hline, hcmd, looseAddress_of_colon hrest hhost]
    simp only
    rw [if_neg (fun h => absurd (sameWord_inj hname h) (by decide)), if_pos hname]
    rfl
  | multicast hname hblanks hall harg hhost =>
    obtain ⟨hline, hcmd, hrest⟩ := cut_directive (by decide) hname hblanks hall harg
    rw [looseCut, if_neg hline, hcmd, looseAddress_of_colon hrest hhost]
    simp only
    rw [if_neg (fun h => absurd (sameWord_inj hname h) (by decide)),
      if_neg (fun h => absurd (sameWord_inj hname h) (by decide)), if_pos hname]
    rfl

theorem Grammar.colon {line : Line} {a : ReplicaAddress} (h : Grammar line (.replica a)) :
    ':' ∈ line := by
  cases h with
  | replica => simp

theorem grammar_unique : Relator.RightUnique Grammar := by
  intro line d d' h h'
  exact Option.some.inj (h.cut.symm.trans h'.cut)

/-! ### Whole files -/

/-- The lines of the file, read one by one, say this together. -/
def ReadsAs (R : Line → Directive → Prop) (text : List Char) (k : Contents) : Prop :=
  ∃ ds, List.Forall₂ R (lines text) ds ∧ k = contents ds

/-- What the constructor reads in the file. -/
def LooselySays (text : List Char) (k : Contents) : Prop :=
  ReadsAs (fun line d => looseRead line = some d) text k

/-- The number of replicas and the last `f` pass the checks behind the loop, where they are
`int`s. -/
def Contents.Usable (k : Contents) : Prop :=
  k.replicas.length % 2 ^ 32 ≠ 0 ∧ ∃ v ∈ k.f, v % 2 ^ 32 ≠ 2 ^ 32 - 1

/-- The two are stored alike. -/
def Contents.Same (k k' : Contents) : Prop :=
  k.f.map int = k'.f.map int ∧ k.replicas = k'.replicas ∧ k.multicast = k'.multicast

/-- The numbers in the file are numbers of an `int`. -/
def Contents.Small (k : Contents) : Prop :=
  k.replicas.length < 2 ^ 31 ∧ ∀ v ∈ k.f, v < 2 ^ 31

/-- A file that says something has small numbers and is read as what it says; a file that says
nothing is read as nothing that can be used. -/
def Faithful (text : List Char) : Prop :=
  (∀ k, Says text k → k.Small ∧ ∃ k', LooselySays text k' ∧ k'.Same k) ∧
  ((¬∃ k, Says text k) → ∀ k, LooselySays text k → ¬k.Usable)

/-- The configuration at the end of the loop. -/
def Contents.stored (k : Contents) : Configuration :=
  { n := 0, f := (k.f.map int).getD (-1), replicas := k.replicas, multicastAddress := k.multicast }

/-- The configuration at the end of the constructor. -/
def Contents.built (k : Contents) : Configuration :=
  { k.stored with n := int k.replicas.length }

theorem Contents.stored_add (k : Contents) (d : Directive) : (k.add d).stored = k.stored.set d := by
  cases d <;>
    simp only [Contents.add, Contents.stored, Configuration.set, Option.map_some, Option.getD_some]

theorem contents_stored (ds : List Directive) (k : Contents) :
    (ds.foldl Contents.add k).stored = ds.foldl Configuration.set k.stored := by
  induction ds generalizing k with
  | nil => rfl
  | cons d ds ih =>
    show (ds.foldl Contents.add (k.add d)).stored = _
    rw [ih, Contents.stored_add]
    rfl

/-- The loop, line by line. -/
theorem foldlM_readLine (ls : List Line) (c r : Configuration) :
    ls.foldlM (fun c line => do return c.set (← readLine line)) c = .ok r ↔
      ∃ ds, List.Forall₂ (fun line d => looseRead line = some d) ls ds ∧
        r = ds.foldl Configuration.set c := by
  induction ls generalizing c with
  | nil =>
    simp only [List.foldlM_nil, List.forall₂_nil_left_iff, exists_eq_left, List.foldl_nil]
    constructor
    · intro h
      exact (Except.ok.inj h).symm
    · rintro rfl
      rfl
  | cons line ls ih =>
    rw [List.foldlM_cons]
    have hread := readLine_toOption line
    cases hline : readLine line with
    | error e =>
      rw [hline] at hread
      constructor
      · intro h
        cases h
      · rintro ⟨ds, hds, -⟩
        obtain ⟨d, ds, hd, -, rfl⟩ := List.forall₂_cons_left_iff.mp hds
        rw [← hread] at hd
        cases hd
    | ok d =>
      rw [hline] at hread
      refine (ih (c.set d)).trans ⟨?_, ?_⟩
      · rintro ⟨ds, hds, rfl⟩
        exact ⟨d :: ds, .cons hread.symm hds, rfl⟩
      · rintro ⟨ds, hds, rfl⟩
        obtain ⟨d', rest, hd, hrest, rfl⟩ := List.forall₂_cons_left_iff.mp hds
        have : d = d' := Option.some.inj (hread.trans hd)
        subst this
        exact ⟨rest, hrest, rfl⟩

theorem int_eq_zero_iff (k : ℕ) : int k = 0 ↔ k % 2 ^ 32 = 0 := by
  simp only [int, unsignedInt]
  split_ifs <;> omega

theorem int_eq_neg_one_iff (k : ℕ) : int k = -1 ↔ k % 2 ^ 32 = 2 ^ 32 - 1 := by
  simp only [int, unsignedInt]
  split_ifs <;> omega

theorem int_eq_self_iff (k : ℕ) : int k = k ↔ k < 2 ^ 31 := by
  simp only [int, unsignedInt]
  split_ifs <;> omega

theorem Contents.usable_iff (k : Contents) :
    k.Usable ↔ k.built.n ≠ 0 ∧ k.built.f ≠ -1 := by
  obtain ⟨f, replicas, multicast⟩ := k
  show _ ↔ int replicas.length ≠ 0 ∧ (f.map int).getD (-1) ≠ -1
  rw [Ne, int_eq_zero_iff]
  refine and_congr_right fun _ => ?_
  cases f with
  | none => simp
  | some v =>
    show (∃ w ∈ some v, _) ↔ int v ≠ -1
    rw [Ne, int_eq_neg_one_iff]
    simp

theorem bind_eq_ok {α β : Type} {x : Except Failure α} {g : α → Except Failure β} {b : β} :
    (x >>= g) = .ok b ↔ ∃ a, x = .ok a ∧ g a = .ok b := by
  cases x with
  | error e => exact iff_of_false (fun h => by cases h) (fun ⟨_, h, _⟩ => by cases h)
  | ok a =>
    constructor
    · intro h
      exact ⟨a, rfl, h⟩
    · rintro ⟨a', ha, h⟩
      cases ha
      exact h

/-- **What the constructor does**: it reads every line loosely, and looks at the numbers. -/
theorem ofFile_eq_ok_iff (text : List Char) (c : Configuration) :
    Configuration.ofFile text = .ok c ↔ ∃ k, LooselySays text k ∧ k.Usable ∧ c = k.built := by
  have hloop := foldlM_readLine (lines text) (Contents.stored {})
  have hstored : ∀ ds, ds.foldl Configuration.set (Contents.stored {}) = (contents ds).stored :=
    fun ds => (contents_stored ds {}).symm
  rw [Configuration.ofFile]
  constructor
  · intro h
    obtain ⟨r, hr, hc⟩ := bind_eq_ok.mp h
    obtain ⟨ds, hds, rfl⟩ := (hloop r).mp hr
    rw [hstored] at hc
    change (if (contents ds).built.n = 0 then _ else if (contents ds).built.f = -1 then _ else _) =
      _ at hc
    split_ifs at hc with hn hf
    exact ⟨contents ds, ⟨ds, hds, rfl⟩, (contents ds).usable_iff.mpr ⟨hn, hf⟩,
      (Except.ok.inj hc).symm⟩
  · rintro ⟨k, ⟨ds, hds, rfl⟩, husable, rfl⟩
    obtain ⟨hn, hf⟩ := (contents ds).usable_iff.mp husable
    refine bind_eq_ok.mpr ⟨(contents ds).stored, ?_, ?_⟩
    · exact (hloop _).mpr ⟨ds, hds, (hstored ds).symm⟩
    · show (if (contents ds).built.n = 0 then _ else if (contents ds).built.f = -1 then _ else _) =
        _
      rw [if_neg hn, if_neg hf]
      rfl

theorem says_unique {text : List Char} {k k' : Contents} (h : Says text k) (h' : Says text k') :
    k = k' := by
  obtain ⟨⟨ds, hds, rfl⟩, -⟩ := h
  obtain ⟨⟨ds', hds', rfl⟩, -⟩ := h'
  rw [Relator.RightUnique.forall₂ grammar_unique hds hds']

theorem looselySays_unique {text : List Char} {k k' : Contents} (h : LooselySays text k)
    (h' : LooselySays text k') : k = k' := by
  obtain ⟨ds, hds, rfl⟩ := h
  obtain ⟨ds', hds', rfl⟩ := h'
  have hunique : Relator.RightUnique fun line d => looseRead line = some d :=
    fun _ _ _ h h' => Option.some.inj (h.symm.trans h')
  rw [Relator.RightUnique.forall₂ hunique hds hds']

/-- A configuration that is built is what the file says exactly if the numbers are small. -/
theorem Contents.built_is_iff {k k' : Contents} (hk : k.Complete) :
    k'.built.Is k ↔ k'.Same k ∧ k.Small := by
  obtain ⟨f, replicas, multicast⟩ := k
  obtain ⟨f', replicas', multicast'⟩ := k'
  obtain ⟨v, rfl⟩ := Option.isSome_iff_exists.mp hk.2
  constructor
  · rintro ⟨hn, hf, hreplicas, hmulticast⟩
    change replicas' = replicas at hreplicas
    change multicast' = multicast at hmulticast
    change int replicas'.length = replicas.length at hn
    change some ((f'.map int).getD (-1)) = some (v : ℤ) at hf
    subst hreplicas hmulticast
    cases f' with
    | none =>
      have hf : (-1 : ℤ) = v := Option.some.inj hf
      omega
    | some v' =>
      have hf : int v' = v := Option.some.inj hf
      have hv : v < 2 ^ 31 := by
        have hle : int v' < 2 ^ 31 := by
          simp only [int, unsignedInt]
          split_ifs <;> omega
        omega
      refine ⟨⟨?_, rfl, rfl⟩, (int_eq_self_iff _).mp hn, ?_⟩
      · show some (int v') = some (int v)
        rw [hf, (int_eq_self_iff v).mpr hv]
      · intro w hw
        have : v = w := Option.some.inj hw
        omega
  · rintro ⟨⟨hf, hreplicas, hmulticast⟩, hsmall, hv⟩
    change f'.map int = some (int v) at hf
    change replicas' = replicas at hreplicas
    change multicast' = multicast at hmulticast
    subst hreplicas hmulticast
    refine ⟨(int_eq_self_iff _).mpr hsmall, ?_, rfl, rfl⟩
    show some ((f'.map int).getD (-1)) = some (v : ℤ)
    rw [hf, Option.getD_some, (int_eq_self_iff v).mpr (hv v rfl)]

theorem Contents.usable_of_same {k k' : Contents} (hk : k.Complete) (hsmall : k.Small)
    (hsame : k'.Same k) : k'.Usable := by
  have his : k'.built.Is k := (Contents.built_is_iff hk).mpr ⟨hsame, hsmall⟩
  refine k'.usable_iff.mpr ⟨?_, ?_⟩
  · rw [his.1]
    have := List.length_pos_iff.mpr hk.1
    omega
  · intro hf
    obtain ⟨v, hv⟩ := Option.isSome_iff_exists.mp hk.2
    have h := his.2.1
    rw [hf, hv] at h
    have h : (-1 : ℤ) = v := Option.some.inj h
    omega

theorem exists_is {k : Contents} (hk : k.Complete) : ∃ c : Configuration, c.Is k := by
  obtain ⟨v, hv⟩ := Option.isSome_iff_exists.mp hk.2
  refine ⟨⟨k.replicas.length, v, k.replicas, k.multicast⟩, rfl, ?_, rfl, rfl⟩
  rw [hv]
  rfl

theorem is_unique {c c' : Configuration} {k : Contents} (h : c.Is k) (h' : c'.Is k) : c = c' := by
  obtain ⟨n, f, replicas, multicast⟩ := c
  obtain ⟨n', f', replicas', multicast'⟩ := c'
  obtain ⟨hn, hf, hreplicas, hmulticast⟩ := h
  obtain ⟨hn', hf', hreplicas', hmulticast'⟩ := h'
  have hf : f = f' := Option.some.inj (hf.trans hf'.symm)
  rw [Configuration.mk.injEq]
  exact ⟨hn.trans hn'.symm, hf, hreplicas.trans hreplicas'.symm,
    hmulticast.trans hmulticast'.symm⟩

/-- **The files that are parsed exactly**: those whose lines are in the grammar, with numbers that
fit an `int` (and no line so long that its positions do not fit 32 bits and it is cut elsewhere);
and those that say nothing and, even read loosely, have a line that is refused, no replica or
no `f`. -/
theorem ofFile_exact_iff (text : List Char) : Exact text ↔ Faithful text := by
  constructor
  · intro hexact
    constructor
    · intro k hk
      obtain ⟨c, hc⟩ := exists_is hk.2
      obtain ⟨k', hloose, -, rfl⟩ := (ofFile_eq_ok_iff text c).mp ((hexact c).mpr ⟨k, hk, hc⟩)
      obtain ⟨hsame, hsmall⟩ := (Contents.built_is_iff hk.2).mp hc
      exact ⟨hsmall, k', hloose, hsame⟩
    · intro hnone k hloose husable
      have hok := (ofFile_eq_ok_iff text k.built).mpr ⟨k, hloose, husable, rfl⟩
      obtain ⟨k', hk', -⟩ := (hexact k.built).mp hok
      exact hnone ⟨k', hk'⟩
  · rintro ⟨htold, hnot⟩ c
    rw [ofFile_eq_ok_iff]
    constructor
    · rintro ⟨k', hloose, husable, rfl⟩
      by_cases hexists : ∃ k, Says text k
      · obtain ⟨k, hk⟩ := hexists
        obtain ⟨hsmall, k'', hloose', hsame⟩ := htold k hk
        rw [looselySays_unique hloose hloose']
        exact ⟨k, hk, (Contents.built_is_iff hk.2).mpr ⟨hsame, hsmall⟩⟩
      · exact absurd husable (hnot hexists k' hloose)
    · rintro ⟨k, hk, hc⟩
      obtain ⟨hsmall, k', hloose, hsame⟩ := htold k hk
      exact ⟨k', hloose, Contents.usable_of_same hk.2 hsmall hsame,
        is_unique hc ((Contents.built_is_iff hk.2).mpr ⟨hsame, hsmall⟩)⟩

/-- Short lines of the grammar are read as they say. -/
theorem Says.loosely {text : List Char} {k : Contents}
    (hshort : ∀ line ∈ lines text, line.length < 2 ^ 32 - 1) (hk : Says text k) :
    LooselySays text k := by
  obtain ⟨⟨ds, hds, rfl⟩, -⟩ := hk
  refine ⟨ds, ?_, rfl⟩
  revert hds hshort
  generalize lines text = ls
  intro hshort hds
  induction hds with
  | nil => exact .nil
  | @cons line d ls ds hd _ ih =>
    refine .cons ?_ (ih fun l hl => hshort l (List.mem_cons_of_mem _ hl))
    have hlen := hshort line List.mem_cons_self
    rw [looseRead, if_neg (by omega)]
    exact hd.cut

/-- Without long lines, what the file says is read unless its numbers are too large, and nothing
is missing but that a file that says nothing is found to be so. -/
theorem ofFile_exact_iff_of_short {text : List Char}
    (hshort : ∀ line ∈ lines text, line.length < 2 ^ 32 - 1) :
    Exact text ↔
      (∀ k, Says text k → k.Small) ∧
      ((¬∃ k, Says text k) → ∀ k, LooselySays text k → ¬k.Usable) := by
  rw [ofFile_exact_iff, Faithful]
  refine and_congr_left fun _ => forall_congr' fun k => ?_
  constructor
  · intro h hk
    exact (h hk).1
  · intro h hk
    exact ⟨h hk, k, hk.loosely hshort, rfl, rfl, rfl⟩

/-- The last line has no colon: its host is `localhost`, and its port the whole line. -/
theorem ofFile_without_colon : ¬Exact "f 1\nreplica localhost".toList := by
  intro hexact
  have hok : Configuration.ofFile "f 1\nreplica localhost".toList = .ok
      { n := 1, f := 1, replicas := [⟨"localhost".toList, "replica localhost".toList⟩],
        multicastAddress := none } := by decide +kernel
  obtain ⟨k, ⟨⟨ds, hds, -⟩, -⟩, -⟩ := (hexact _).mp hok
  have hlines : lines "f 1\nreplica localhost".toList =
      ["f 1".toList, "replica localhost".toList] := by decide +kernel
  rw [hlines] at hds
  obtain ⟨d, ds, -, hrest, -⟩ := List.forall₂_cons_left_iff.mp hds
  obtain ⟨d, ds, hline, -, -⟩ := List.forall₂_cons_left_iff.mp hrest
  have hread : looseCut "replica localhost".toList =
      some (.replica ⟨"localhost".toList, "replica localhost".toList⟩) := by decide +kernel
  rw [Option.some.inj (hline.cut.symm.trans hread)] at hline
  exact absurd hline.colon (by decide +kernel)

end D2PC.ConfigFile
