import Mathlib.Data.List.Basic
import PackageLint.Proofs.TextParts
import PackageLint.Repository

/-!
# The form of git addresses

An address is written as its parts in their order, each with what sets it off: a protocol and `://`, a
user and `@`, a host, a port behind `:`, a path that starts with `/`. Protocol, user and port may be
missing. The parts can be told from the text, because none of them holds the character that sets the
next one off: the host ends at a colon or a slash, and a colon is followed by two slashes behind a
protocol only.

## Main definitions

* `Repository.Layout` — the parts of an address, and `Layout.chars`, the text that they make up
* `Repository.Layout.IsAddress` — parts that an address may have

## Main results

* `Repository.not_infix_authority` — only a protocol is followed by `://`
* `Repository.parse?_eq_some_iff` — the texts that are read as addresses, be it with a final line feed
-/

namespace PackageLint.Repository

open Text

/-! ### Layouts -/

/-- A text that is not empty and has characters of one class only. -/
def IsRun (p : Char → Bool) (cs : List Char) : Prop := cs ≠ [] ∧ ∀ c ∈ cs, p c = true

/-- The characters of a port. -/
def isPortChar (c : Char) : Bool := isWord c || c = '-'

/-- The text of a protocol with what sets it off. -/
def schemeText : Option String → List Char
  | some p => p.toList ++ "://".toList
  | none => []

/-- The text of a user with what sets it off. -/
def userText : Option (List Char) → List Char
  | some name => name ++ ['@']
  | none => []

/-- The text of a port with what sets it off. -/
def portText : Option (List Char) → List Char
  | some name => ':' :: name
  | none => []

/-- The parts of an address. -/
structure Layout where
  /-- The protocol. -/
  protocol : Option String
  /-- The user. -/
  user : Option (List Char)
  /-- The host. -/
  host : List Char
  /-- The port. -/
  port : Option (List Char)
  /-- The path with its first slash. -/
  path : List Char

namespace Layout

/-- The text behind the protocol. -/
def authority (l : Layout) : List Char := userText l.user ++ (l.host ++ (portText l.port ++ l.path))

/-- The text that the parts make up. -/
def chars (l : Layout) : List Char := schemeText l.protocol ++ l.authority

/-- What is read of an address. -/
def address (l : Layout) : GitAddress := { protocol := l.protocol, host := l.host, path := l.path }

/-- Parts that an address may have. -/
structure IsAddress (l : Layout) : Prop where
  protocol_mem : ∀ p ∈ l.protocol, p ∈ protocols
  user : ∀ name ∈ l.user, IsRun isHostChar name
  host : IsRun isHostChar l.host
  port : ∀ name ∈ l.port, IsRun isPortChar name
  path : ∃ rest, l.path = '/' :: rest ∧ IsRun isPathChar rest

end Layout

variable {l : Layout} {cs front rest path lf : List Char} {c : Char} {p q : String}

/-! ### Characters -/

theorem IsRun.not_mem {k : Char → Bool} (h : IsRun k cs) (hc : k c = false) : c ∉ cs := by
  intro hmem
  simp [h.2 c hmem] at hc

theorem isPathChar_of_isPortChar (h : isPortChar c = true) : isPathChar c = true := by
  rw [isPortChar, Bool.or_eq_true] at h
  rcases h with h | h <;> simp [isPathChar, isHostChar, h]

/-- No protocol holds what sets it off. -/
theorem colon_not_mem_protocol : ∀ p ∈ protocols, ':' ∉ p.toList := by decide

/-! ### What sets the parts off -/

/-- A text with one colon, and that before something else than a slash, holds no `://`. -/
theorem not_infix_of_one_colon (hfront : ':' ∉ front) (hrest : ':' ∉ rest)
    (hslash : ∀ c ∈ rest.head?, c ≠ '/') : ¬"://".toList <:+: front ++ ':' :: rest := by
  rintro ⟨before, after, heq⟩
  have hsplit : front ++ ':' :: rest = before ++ ':' :: '/' :: '/' :: after := by
    simpa using heq.symm
  obtain ⟨-, -, rfl⟩ := (List.append_cons_inj_of_notMem hfront hrest).mp hsplit
  exact hslash '/' (by simp) rfl

namespace Layout.IsAddress

variable (h : l.IsAddress)

include h

theorem not_mem_user (hat : c ≠ '@') (hc : isHostChar c = false) : c ∉ userText l.user := by
  cases huser : l.user with
  | none => simp [userText]
  | some name => simp [userText, (h.user name huser).not_mem hc, hat]

theorem not_mem_path (hslash : c ≠ '/') (hc : isPathChar c = false) : c ∉ l.path := by
  obtain ⟨rest, hpath, hrest⟩ := h.path
  rw [hpath, List.mem_cons, not_or]
  exact ⟨hslash, hrest.not_mem hc⟩

theorem colon_not_mem_front : ':' ∉ userText l.user ++ l.host := by
  rw [List.mem_append, not_or]
  exact ⟨h.not_mem_user (by decide) (by decide), h.host.not_mem (by decide)⟩

/-- What follows the host starts with what sets off a port or a path. -/
theorem head_after_host (lf : List Char) :
    ∀ c ∈ (portText l.port ++ (l.path ++ lf)).head?, c = ':' ∨ c = '/' := by
  obtain ⟨rest, hpath, -⟩ := h.path
  cases l.port <;> simp [portText, hpath]

/-- Only a protocol is followed by `://`. -/
theorem not_infix_authority (hlf : ':' ∉ lf) : ¬"://".toList <:+: l.authority ++ lf := by
  have hfront := h.colon_not_mem_front
  have hpath : ':' ∉ l.path ++ lf := by
    rw [List.mem_append, not_or]
    exact ⟨h.not_mem_path (by decide) (by decide), hlf⟩
  rw [authority]
  cases hport : l.port with
  | none =>
    have hnone : ':' ∉ userText l.user ++ (l.host ++ (portText none ++ l.path)) ++ lf := by
      simpa [portText, and_assoc] using And.intro hfront hpath
    exact fun hpart => hnone (hpart.subset (by decide))
  | some name =>
    obtain ⟨hne, hname⟩ := h.port name hport
    have hrest : ':' ∉ name ++ (l.path ++ lf) := by
      rw [List.mem_append, not_or]
      exact ⟨(h.port name hport).not_mem (by decide), hpath⟩
    have hslash : ∀ c ∈ (name ++ (l.path ++ lf)).head?, c ≠ '/' := by
      obtain ⟨first, others, rfl⟩ := List.exists_cons_of_ne_nil hne
      rintro c hc rfl
      obtain rfl : first = '/' := by simpa using hc
      exact absurd (hname '/' (by simp)) (by decide)
    have hnone := not_infix_of_one_colon hfront hrest hslash
    simpa [portText] using hnone

end Layout.IsAddress

/-! ### The protocol -/

/-- The text up to `://` tells the protocol. -/
theorem scheme_inj (hp : ':' ∉ p.toList) (hq : ':' ∉ q.toList)
    (h : schemeText (some p) ++ front = schemeText (some q) ++ rest) : p = q ∧ front = rest := by
  have hsplit : p.toList ++ ':' :: ('/' :: '/' :: front)
      = q.toList ++ ':' :: ('/' :: '/' :: rest) := by
    simpa [schemeText] using h
  have htake := congrArg (List.takeWhile (· ≠ ':')) hsplit
  have hword : ∀ {s : String}, ':' ∉ s.toList → ∀ c ∈ s.toList, decide (c ≠ ':') = true := by
    intro s hs c hc
    exact decide_eq_true fun heq => hs (heq ▸ hc)
  rw [takeWhile_eq_of_head (hword hp) (by simp), takeWhile_eq_of_head (hword hq) (by simp)]
    at htake
  obtain rfl := String.toList_inj.mp htake
  exact ⟨rfl, by simpa using hsplit⟩

theorem splitProtocol_eq {protocol : Option String} (hmem : ∀ p ∈ protocol, p ∈ protocols)
    (hrest : ¬"://".toList <:+: rest) :
    splitProtocol (schemeText protocol ++ rest) = (protocol, rest) := by
  rw [splitProtocol]
  cases hfound : protocols.findSome? fun p =>
      (dropStart? (p ++ "://").toList (schemeText protocol ++ rest)).map fun rest => (p, rest) with
  | none =>
    cases protocol with
    | none => rfl
    | some p =>
      have hnone := List.findSome?_eq_none_iff.mp hfound p (hmem p rfl)
      rw [schemeText, ← String.toList_append, dropStart?_append] at hnone
      simp at hnone
  | some found =>
    obtain ⟨q, hq, hsome⟩ := List.exists_of_findSome?_eq_some hfound
    obtain ⟨after, hafter, rfl⟩ := Option.map_eq_some_iff.mp hsome
    have heq := dropStart?_eq_some_iff.mp hafter
    rw [String.toList_append] at heq
    cases protocol with
    | none =>
      refine absurd ⟨q.toList, after, ?_⟩ hrest
      simpa [schemeText] using heq.symm
    | some p =>
      obtain ⟨rfl, rfl⟩ := scheme_inj (colon_not_mem_protocol p (hmem p rfl))
        (colon_not_mem_protocol q hq) heq
      rfl

theorem splitProtocol_spec (cs : List Char) :
    (∀ p ∈ (splitProtocol cs).1, p ∈ protocols)
      ∧ cs = schemeText (splitProtocol cs).1 ++ (splitProtocol cs).2 := by
  rw [splitProtocol]
  cases hfound : protocols.findSome? fun p =>
      (dropStart? (p ++ "://").toList cs).map fun rest => (p, rest) with
  | none => exact ⟨by simp, rfl⟩
  | some found =>
    obtain ⟨p, hp, hsome⟩ := List.exists_of_findSome?_eq_some hfound
    obtain ⟨after, hafter, rfl⟩ := Option.map_eq_some_iff.mp hsome
    refine ⟨by simpa using hp, ?_⟩
    rw [schemeText, ← String.toList_append]
    exact dropStart?_eq_some_iff.mp hafter

/-- The protocol of an address is what stands before `://` in its text. -/
theorem Layout.IsAddress.protocol_eq (h : l.IsAddress) (hp : ':' ∉ p.toList) (hlf : ':' ∉ lf)
    (heq : schemeText (some p) ++ front = l.chars ++ lf) : l.protocol = some p := by
  rw [chars] at heq
  cases hprotocol : l.protocol with
  | none =>
    rw [hprotocol] at heq
    exact absurd ⟨p.toList, front, heq⟩ (h.not_infix_authority hlf)
  | some q =>
    rw [hprotocol, List.append_assoc] at heq
    have hq := colon_not_mem_protocol q (h.protocol_mem q hprotocol)
    rw [(scheme_inj hp hq heq).1]

/-! ### The user, the host and the port -/

theorem dropUser_user {name : List Char} (h : IsRun isHostChar name) (rest : List Char) :
    dropUser (name ++ '@' :: rest) = rest := by
  obtain ⟨first, others, rfl⟩ := List.exists_cons_of_ne_nil h.1
  have hat : ∀ c ∈ ('@' :: rest).head?, isHostChar c = false := by
    simpa using (by decide : isHostChar '@' = false)
  rw [dropUser, takeWhile_eq_of_head h.2 hat, dropWhile_eq_of_head h.2 hat]
  rfl

theorem dropUser_host {host : List Char} (h : IsRun isHostChar host)
    (hrest : ∀ c ∈ rest.head?, c = ':' ∨ c = '/') : dropUser (host ++ rest) = host ++ rest := by
  have hhead : ∀ c ∈ rest.head?, isHostChar c = false := by
    intro c hc
    rcases hrest c hc with rfl | rfl <;> decide
  rw [dropUser, dropWhile_eq_of_head h.2 hhead]
  split
  next =>
    rcases hrest '@' (by simp) with h | h <;> exact absurd h (by decide)
  next => rfl

theorem Layout.IsAddress.dropUser_authority (h : l.IsAddress) (lf : List Char) :
    dropUser (l.authority ++ lf) = l.host ++ (portText l.port ++ (l.path ++ lf)) := by
  rw [authority]
  cases huser : l.user with
  | none => simpa [userText] using dropUser_host h.host (h.head_after_host lf)
  | some name =>
    have hname := dropUser_user (h.user name huser) (l.host ++ (portText l.port ++ (l.path ++ lf)))
    simpa [userText] using hname

/-- What is dropped as a user is one. -/
theorem dropUser_spec (cs : List Char) :
    ∃ user, (∀ name ∈ user, IsRun isHostChar name) ∧ cs = userText user ++ dropUser cs := by
  rw [dropUser]
  split
  next first others rest htake hdrop =>
    refine ⟨some (first :: others), ?_, ?_⟩
    · rintro name ⟨⟩
      exact ⟨by simp, fun c hc => List.mem_takeWhile_imp (htake ▸ hc)⟩
    · have hall := List.takeWhile_append_dropWhile (p := isHostChar) (l := cs)
      rw [htake, hdrop] at hall
      simpa [userText] using hall.symm
  next => exact ⟨none, by simp, rfl⟩

/-- What is dropped as a port is one. -/
theorem dropPort_spec (cs : List Char) :
    ∃ port, (∀ name ∈ port, IsRun isPortChar name) ∧ cs = portText port ++ dropPort cs := by
  fun_cases dropPort cs with
  | case1 rest hempty => exact ⟨none, by simp, rfl⟩
  | case2 rest hne =>
    refine ⟨some (rest.takeWhile isPortChar), ?_, ?_⟩
    · rintro name ⟨⟩
      exact ⟨fun hnil => hne (List.isEmpty_iff.mpr hnil), fun c hc => List.mem_takeWhile_imp hc⟩
    · exact congrArg (':' :: ·) List.takeWhile_append_dropWhile.symm
  | case3 => exact ⟨none, by simp, rfl⟩

theorem dropPort_eq {port : Option (List Char)} (hport : ∀ name ∈ port, IsRun isPortChar name)
    (rest : List Char) : dropPort (portText port ++ '/' :: rest) = '/' :: rest := by
  cases port with
  | none => rfl
  | some name =>
    have hslash : ∀ c ∈ ('/' :: rest).head?, isPortChar c = false := by
      simpa using (by decide : isPortChar '/' = false)
    have htake := takeWhile_eq_of_head (hport name rfl).2 hslash
    have hdrop := dropWhile_eq_of_head (hport name rfl).2 hslash
    change (if ((name ++ '/' :: rest).takeWhile isPortChar).isEmpty then _
      else (name ++ '/' :: rest).dropWhile isPortChar) = _
    rw [htake, hdrop, if_neg (by simpa using (hport name rfl).1)]

/-! ### The path -/

/-- A path is read to the end of the text, be it with a final line feed. -/
theorem wholePath?_eq_some_iff :
    wholePath? cs = some path
      ↔ (∃ rest, path = '/' :: rest ∧ IsRun isPathChar rest)
        ∧ (cs = path ∨ cs = path ++ ['\n']) := by
  constructor
  · intro h
    simp only [wholePath?] at h
    split at h
    next c rest hbody =>
      split at h
      next hall =>
        obtain rfl := Option.some.inj h
        refine ⟨⟨c :: rest, hbody, by simp, fun x hx => List.all_eq_true.mp hall x hx⟩, ?_⟩
        rw [hbody]
        split at hbody
        next hfeed => exact Or.inr (hbody ▸ (List.dropLast_append_getLast? _ hfeed).symm)
        next => exact Or.inl hbody
      next => simp at h
    next => simp at h
  · rintro ⟨⟨rest, rfl, hrest⟩, hcs⟩
    have hbody : (if cs.getLast? = some '\n' then cs.dropLast else cs) = '/' :: rest := by
      rcases hcs with rfl | rfl
      · rw [if_neg]
        intro hfeed
        have hmem := List.mem_of_getLast? hfeed
        exact hrest.not_mem (by decide) ((List.mem_cons.mp hmem).resolve_left (by decide))
      · rw [if_pos List.getLast?_concat, List.dropLast_concat]
    obtain ⟨c, others, rfl⟩ := List.exists_cons_of_ne_nil hrest.1
    rw [wholePath?, hbody]
    exact if_pos (List.all_eq_true.mpr hrest.2)

/-! ### Whole addresses -/

/-- What follows the parts of an address holds no colon. -/
theorem exists_ending (h : cs = front ∨ cs = front ++ ['\n']) :
    ∃ lf, ':' ∉ lf ∧ cs = front ++ lf := by
  rcases h with rfl | rfl
  · exact ⟨[], by simp, by simp⟩
  · exact ⟨['\n'], by decide, rfl⟩

/-- A text is read as an address when it is made up of parts that an address may have, with nothing but
a line feed after them. -/
theorem parse?_eq_some_iff {address : GitAddress} :
    GitAddress.parse? cs = some address
      ↔ ∃ l : Layout, l.IsAddress ∧ l.address = address
          ∧ (cs = l.chars ∨ cs = l.chars ++ ['\n']) := by
  constructor
  · intro h
    obtain ⟨hprotocol, hscheme⟩ := splitProtocol_spec cs
    obtain ⟨user, huser, hrest⟩ := dropUser_spec (splitProtocol cs).2
    rw [GitAddress.parse?] at h
    simp only at h
    split at h
    next => simp at h
    next hne =>
      obtain ⟨path, hwhole, rfl⟩ := Option.map_eq_some_iff.mp h
      obtain ⟨hpath, htail⟩ := wholePath?_eq_some_iff.mp hwhole
      obtain ⟨port, hport, hafter⟩ :=
        dropPort_spec ((dropUser (splitProtocol cs).2).dropWhile isHostChar)
      refine ⟨⟨_, user, _, port, path⟩, ⟨hprotocol, huser, ⟨by simpa using hne, ?_⟩, hport, hpath⟩,
        rfl, ?_⟩
      · exact fun c hc => List.mem_takeWhile_imp hc
      · have hhost := List.takeWhile_append_dropWhile (p := isHostChar)
          (l := dropUser (splitProtocol cs).2)
        simp only [Layout.chars, Layout.authority]
        rcases htail with htail | htail
        · left
          rw [← htail, ← hafter, hhost, ← hrest, ← hscheme]
        · right
          simp only [List.append_assoc]
          rw [← htail, ← hafter, hhost, ← hrest, ← hscheme]
  · rintro ⟨l, hl, rfl, hcs⟩
    obtain ⟨lf, hlf, rfl⟩ : ∃ lf, (lf = [] ∨ lf = ['\n']) ∧ cs = l.chars ++ lf := by
      rcases hcs with rfl | rfl
      · exact ⟨[], Or.inl rfl, by simp⟩
      · exact ⟨_, Or.inr rfl, rfl⟩
    have hcolon : ':' ∉ lf := by rcases hlf with rfl | rfl <;> decide
    have hsplit : splitProtocol (l.chars ++ lf) = (l.protocol, l.authority ++ lf) := by
      rw [Layout.chars, List.append_assoc]
      exact splitProtocol_eq hl.protocol_mem (hl.not_infix_authority hcolon)
    have hdrop := hl.dropUser_authority lf
    have hclass : ∀ c ∈ (portText l.port ++ (l.path ++ lf)).head?, isHostChar c = false := by
      intro c hc
      rcases hl.head_after_host lf c hc with rfl | rfl <;> decide
    have htake := takeWhile_eq_of_head hl.host.2 hclass
    have hport : dropPort (portText l.port ++ (l.path ++ lf)) = l.path ++ lf := by
      obtain ⟨rest, hpath, -⟩ := hl.path
      rw [hpath]
      exact dropPort_eq hl.port (rest ++ lf)
    have hwhole : wholePath? (l.path ++ lf) = some l.path :=
      wholePath?_eq_some_iff.mpr ⟨hl.path, by rcases hlf with rfl | rfl <;> simp⟩
    simp only [GitAddress.parse?, hsplit, hdrop, htake, dropWhile_eq_of_head hl.host.2 hclass, hport,
      hwhole]
    rw [if_neg (by simpa using hl.host.1)]
    rfl

/-- Only the end of an address can be a line feed. -/
theorem Layout.IsAddress.feed_not_mem_chars (h : l.IsAddress) : '\n' ∉ l.chars := by
  have hscheme : '\n' ∉ schemeText l.protocol := by
    cases hprotocol : l.protocol with
    | none => simp [schemeText]
    | some p =>
      have hall : ∀ p ∈ protocols, '\n' ∉ schemeText (some p) := by decide
      exact hall p (h.protocol_mem p hprotocol)
  have hport : '\n' ∉ portText l.port := by
    cases hport : l.port with
    | none => simp [portText]
    | some name => simp [portText, (h.port name hport).not_mem (c := '\n') (by decide)]
  have huser : '\n' ∉ userText l.user := h.not_mem_user (by decide) (by decide)
  have hpath : '\n' ∉ l.path := h.not_mem_path (by decide) (by decide)
  have hhost : '\n' ∉ l.host := h.host.not_mem (by decide)
  simp [chars, authority, hscheme, huser, hhost, hport, hpath]

end PackageLint.Repository
