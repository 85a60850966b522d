import NodeInventory.Command.Shell.Syntax

/-!
# Reading scripts

A script is read and run line by line, so a reader keeps what is left of the text.  Words are read
with a stack of levels, one for each context of quoting.  The fuel of the functions bounds how deep
and how long a text may be read; a multiple of its length is enough.
-/

namespace NodeInventory.Command.Shell

/-- A document that a redirection has announced and that starts at the next line. -/
structure Announced where
  number : Nat
  mark : List Char
  stripTabs : Bool
  /-- Whether nothing in it is expanded. -/
  literal : Bool
deriving DecidableEq, Repr

structure Source where
  text : List Char
  line : Nat
  /-- A token to be read again. -/
  pushed : Option Token
  /-- The last word that has been read. -/
  word : Word
  announced : List Announced
  /-- The documents read so far, by their numbers. -/
  documents : List (Nat × Word)
  documentCount : Nat

/-- A fault in a script and the line where it is noticed. -/
structure Fault where
  line : Nat
  message : String
deriving DecidableEq, Repr

abbrev Parse := StateT Source (Except Fault)

namespace Parse

def fail {α : Type} (message : String) : Parse α := do
  throw ⟨(← get).line, "Syntax error: " ++ message⟩

def unexpected {α : Type} (token : Token) : Parse α := fail (token.title ++ " unexpected")

def expected {α : Type} (found wanted : Token) : Parse α :=
  fail (found.title ++ " unexpected (expecting " ++ wanted.title ++ ")")

def newLine : Parse Unit := modify fun source => { source with line := source.line + 1 }

/-- The next character as it stands. -/
def raw : Parse (Option Char) := fun source =>
  match source.text with
  | [] => .ok (none, source)
  | c :: rest => .ok (some c, { source with text := rest })

/-- A text without line continuations in front, and the number of those. -/
def joinLines (joined : Nat) : List Char → List Char × Nat
  | '\\' :: '\n' :: rest => joinLines (joined + 1) rest
  | text => (text, joined)

/-- The next character, over line continuations. -/
def char : Parse (Option Char) := do
  modify fun source =>
    match source.text with
    | '\\' :: '\n' :: _ =>
        let (text, joined) := joinLines 0 source.text
        { source with text, line := source.line + joined }
    | _ => source
  raw

def unread : Option Char → Parse Unit
  | none => return
  | some c => modify fun source => { source with text := c :: source.text }

/-- The characters up to one that is not accepted. -/
def chars (accept : Char → Bool) : Nat → Parse (List Char)
  | 0 => return []
  | fuel + 1 => do
      match ← char with
      | none => return []
      | some c =>
          if accept c then return c :: (← chars accept fuel)
          else
            unread (some c)
            return []

end Parse

open Parse

inductive Quoting
  | none
  | double
  | single
  | sum
deriving DecidableEq, Repr

/-- A context of quoting within a word. -/
structure Level where
  quoting : Quoting
  /-- Whether backslashes mean what they mean within double quotes. -/
  double : Bool
  /-- Open parameters, and how many of them stand within double quotes. -/
  nest : Nat
  doubleNest : Nat
  /-- Whether double quotes are open within a parameter. -/
  inner : Bool
  /-- Whether the level ends with its last open parameter. -/
  pushed : Bool
  parens : Nat
deriving DecidableEq, Repr

def Level.start (quoting : Quoting) : Level :=
  ⟨quoting, quoting != .none && quoting != .single, 0, 0, false, false, 0⟩

/-- What a word is read for. -/
structure Purpose where
  document : Option Announced
  /-- The mark that ends a document, in which nothing is expanded. -/
  isMark : Bool

inductive Kind
  | newline | plain | backslash | openSingle | openDouble | endQuote | backQuote | dollar
  | endParameter | openParen | closeParen | metacharacter
deriving DecidableEq, Repr

def kindOf : Quoting → Char → Kind
  | .single, c => if c == '\n' then .newline else if c == '\'' then .endQuote else .plain
  | quoting, c =>
      if c == '\n' then .newline
      else if c == '\\' then .backslash
      else if c == '\x60' then .backQuote
      else if c == '$' then .dollar
      else if c == '\x7d' then .endParameter
      else match quoting with
        | .double => if c == '"' then .endQuote else .plain
        | .sum => if c == '(' then .openParen else if c == ')' then .closeParen else .plain
        | _ =>
            if c == '\'' then .openSingle
            else if c == '"' then .openDouble
            else if "<>();&| \t".toList.contains c then .metacharacter
            else .plain

namespace Parse

/-- Whether a line of a document is the mark that ends it, which is then read over. -/
def endsDocument (document : Announced) : Parse Bool := do
  let source ← get
  let text := if document.stripTabs then source.text.dropWhile (· == '\t') else source.text
  if document.mark.isPrefixOf text then
    match text.drop document.mark.length with
    | [] =>
        set { source with text := [], line := source.line + 1 }
        return true
    | '\n' :: rest =>
        set { source with text := rest, line := source.line + 1 }
        return true
    | _ =>
        set { source with text }
        return false
  else
    set { source with text }
    return false

/-- What is asked about a parameter in braces; its name has been read. -/
def formOf (name : List Char) (sign : Option Char) : Parse Parameter := do
  let form? : Option Char → Form
    | some '\x7d' => .value
    | some '-' => .instead
    | some '+' => .ifSet
    | some '?' => .required
    | some '=' => .assigned
    | _ => .malformed
  match sign with
  | some ':' => return ⟨name, form? (← char), true⟩
  | some c =>
      if c == '%' || c == '#' then
        let next ← char
        if next = some c then return ⟨name, .trimmed (c == '%') true, false⟩
        else
          unread next
          return ⟨name, .trimmed (c == '%') false, false⟩
      else return ⟨name, form? sign, false⟩
  | none => return ⟨name, .malformed, false⟩

/-- A parameter, the first character of which has been read; a nested word is still to come. -/
def parameterHead (braced : Bool) (c : Char) : Parse Parameter := do
  let fuel := (← get).text.length
  let named (c : Char) (long : Bool) : Parse (List Char) := do
    if isNameStart c then return c :: (← chars isNameChar fuel)
    else if long then return c :: (← chars Char.isDigit fuel)
    else return [c]
  let measured (name : List Char) : Parse Parameter := do
    let next ← char
    unread next
    return ⟨name, if next = some '\x7d' then .length else .malformed, false⟩
  if isNameStart c || c.isDigit then
    let name ← named c braced
    if braced then formOf name (← char) else return ⟨name, .value, false⟩
  else if c == '\x7d' then
    unread (some c)
    return ⟨[], .malformed, false⟩
  else
    let next ← char
    if braced && c == '#' then
      if let some d := next then
        if isNameChar d then return ← measured (← named d true)
      let after ← char
      unread after
      if next = some '\x7d' || after ≠ some '\x7d' then formOf ['#'] next
      else
        match next with
        | some d => return ⟨[d], if isSpecial d then .length else .malformed, false⟩
        | none => return ⟨[], .malformed, false⟩
    else if !isSpecial c then
      unread next
      return ⟨[], .malformed, false⟩
    else if braced then formOf [c] next
    else
      unread next
      return ⟨[c], .value, false⟩

/-- The text up to a closing back quote. -/
def backQuoted (double : Bool) : Nat → Parse (List Char)
  | 0 => fail "EOF in backquote substitution"
  | fuel + 1 => do
      match ← char with
      | none => fail "EOF in backquote substitution"
      | some '\x60' => return []
      | some '\\' =>
          match ← raw with
          | none => fail "EOF in backquote substitution"
          | some c =>
              let rest ← backQuoted double fuel
              let bare := c == '\\' || c == '\x60' || c == '$' || (double && c == '"')
              return if bare then c :: rest else '\\' :: c :: rest
      | some c =>
          if c == '\n' then newLine
          return c :: (← backQuoted double fuel)

end Parse

/-- How far a list of commands goes. -/
inductive Extent
  | line
  /-- Up to a token that ends a list, with a command before it. -/
  | compound
  /-- Up to a token that ends a list. -/
  | whole
deriving DecidableEq, Repr

/-- Commands whose names no function may have. -/
def specialNames : List String :=
  [".", ":", "break", "continue", "eval", "exec", "exit", "export", "local", "readonly", "return",
    "set", "shift", "times", "trap", "unset"]

def Node.inBackground : Node → Node
  | .redirected line body redirects => .background line body redirects
  | node => .background 0 node []

/-- All arguments, each as a word of its own. -/
def allArguments : Word := [.quoteMark, .parameter ⟨['@'], .value, false⟩, .quoteMark]

def Node.after (node : Node) : Option Node → Node
  | none => node
  | some first => .sequence first node

namespace Parse

mutual

/-- A word up to its end, and the character there. -/
def scan : Nat → Purpose → Level → List Level → List Piece → Bool →
    Parse (Word × Bool × Option Char)
  | 0, _, _, _, _, _ => fail "text too long"
  | fuel + 1, purpose, top, outer, out, quoted => do
      let put (c : Char) : List Piece :=
        .char (top.quoting == .double || top.quoting == .single) c :: out
      let marked : List Piece := if purpose.document.isSome then out else .quoteMark :: out
      let finish (out : List Piece) (stop : Option Char) : Parse (Word × Bool × Option Char) := do
        if top.quoting = .sum then fail "Missing '))'"
        if top.quoting ≠ .none && purpose.document.isNone then fail "Unterminated quoted string"
        if top.nest ≠ 0 then fail "Missing '\x7d'"
        return (out.reverse, quoted, stop)
      match ← if top.quoting = .single then raw else char with
      | none => finish out none
      | some c =>
          match kindOf top.quoting c with
          | .newline =>
              if top.quoting = .none && top.nest = 0 then finish out (some c)
              else
                newLine
                if let some document := purpose.document then
                  if ← endsDocument document then return ← finish (put c) none
                scan fuel purpose top outer (put c) quoted
          | .plain => scan fuel purpose top outer (put c) quoted
          | .backslash =>
              match ← raw with
              | none => scan fuel purpose top outer (.char true '\\' :: out) quoted
              | some d =>
                  let keeps := top.double && d != '\\' && d != '\x60' && d != '$'
                    && (d != '"' || (purpose.document.isSome && top.nest == 0))
                    && (d != '\x7d' || top.nest == 0)
                  let out := if keeps then .char true '\\' :: out else out
                  scan fuel purpose top outer (.char true d :: out) true
          | .openSingle => scan fuel purpose { top with quoting := .single } outer marked quoted
          | .openDouble =>
              let top := { top with
                quoting := .double, double := true, inner := top.inner != decide (0 < top.nest) }
              scan fuel purpose top outer marked quoted
          | .endQuote =>
              if purpose.document.isSome && top.nest == 0 then
                scan fuel purpose top outer (put c) quoted
              else
                let top := if top.doubleNest = 0 then
                  { top with quoting := .none, double := false } else top
                let top := { top with inner := top.inner != (c == '"' && decide (0 < top.nest)) }
                scan fuel purpose top outer marked true
          | .endParameter =>
              if top.inner || top.nest == 0 then scan fuel purpose top outer (put c) quoted
              else
                match outer with
                | below :: further =>
                    if top.nest = 1 && top.pushed then
                      scan fuel purpose below further (.close :: out) quoted
                    else
                      let top := { top with nest := top.nest - 1, doubleNest := top.doubleNest - 1 }
                      scan fuel purpose top outer (.close :: out) quoted
                | [] =>
                    let top := { top with nest := top.nest - 1, doubleNest := top.doubleNest - 1 }
                    scan fuel purpose top outer (.close :: out) quoted
          | .openParen =>
              scan fuel purpose { top with parens := top.parens + 1 } outer (put c) quoted
          | .closeParen =>
              if 0 < top.parens then
                scan fuel purpose { top with parens := top.parens - 1 } outer (put c) quoted
              else
                match ← char, outer with
                | some ')', below :: further =>
                    scan fuel purpose below further (.closeSum :: out) quoted
                | next, _ =>
                    unread next
                    scan fuel purpose top outer (put c) quoted
          | .backQuote =>
              if purpose.isMark then scan fuel purpose top outer (put c) true
              else
                let body ← backQuoteCommand fuel top.double
                scan fuel purpose top outer (.command body :: out) quoted
          | .dollar =>
              let (top, outer, out) ← dollar fuel purpose top outer out
              scan fuel purpose top outer out quoted
          | .metacharacter =>
              if top.nest = 0 then finish out (some c)
              else scan fuel purpose top outer (put c) quoted

/-- What follows a dollar sign. -/
def dollar : Nat → Purpose → Level → List Level → List Piece →
    Parse (Level × List Level × List Piece)
  | 0, _, _, _, _ => fail "text too long"
  | fuel + 1, purpose, top, outer, out => do
      let next ← char
      let literal : Parse (Level × List Level × List Piece) := do
        unread next
        return (top, outer, .char (top.quoting == .double) '$' :: out)
      match next with
      | none => literal
      | some c =>
          if purpose.isMark then literal
          else if c == '(' then
            match ← char with
            | some '(' => return (.start .sum, top :: outer, .sum :: out)
            | next =>
                unread next
                return (top, outer, .command (← parenCommand fuel) :: out)
          else if c == '\x7b' || isNameStart c || isSpecial c then
            let parameter ← if c == '\x7b' then do
                match ← char with
                | some d => parameterHead true d
                | none => pure ⟨[], .malformed, false⟩
              else parameterHead false c
            if !parameter.nests then return (top, outer, .parameter parameter :: out)
            let quoting : Quoting := match parameter.form, top.quoting with
              | .trimmed .., _ => .none
              | _, .sum => .double
              | _, quoting => quoting
            let (top, outer) := if quoting ≠ top.quoting || top.inner then
              ({ Level.start quoting with pushed := true }, top :: outer) else (top, outer)
            let top := { top with
              nest := top.nest + 1, doubleNest := top.doubleNest + if top.double then 1 else 0 }
            return (top, outer, .parameter parameter :: out)
          else literal

/-- The commands between a parenthesis that has been read and its counterpart. -/
def parenCommand : Nat → Parse (Option Node)
  | 0 => fail "text too long"
  | fuel + 1 => do
      let announced := (← get).announced
      modify fun source => { source with pushed := none, announced := [] }
      let body ← list fuel .whole none
      match ← next fuel false false with
      | .closeParen =>
          modify fun source => { source with announced := announced ++ source.announced }
          return body
      | token => expected token .closeParen

/-- The commands between back quotes, the first of which has been read. -/
def backQuoteCommand : Nat → Bool → Parse (Option Node)
  | 0, _ => fail "text too long"
  | fuel + 1, double => do
      let text ← backQuoted double (← get).text.length.succ
      let outside ← get
      set { outside with text, line := 1, pushed := none, announced := [] }
      let body ← list fuel .whole none
      modify fun source => { outside with
        documents := source.documents, documentCount := source.documentCount }
      return body

/-- The next token of the text. -/
def token : Nat → (isMark : Bool) → Parse Token
  | 0, _ => fail "text too long"
  | fuel + 1, isMark => do
      let either (second : Char) (two one : Token) : Parse Token := do
        let next ← char
        if next = some second then return two
        else
          unread next
          return one
      match ← char with
      | none => return .endOfFile
      | some c =>
          if c == ' ' || c == '\t' then token fuel isMark
          else if c == '#' then
            modify fun source => { source with text := source.text.dropWhile (· != '\n') }
            token fuel isMark
          else if c == '\n' then
            newLine
            return .newline
          else if c == '&' then either '&' .andIf .ampersand
          else if c == '|' then either '|' .orIf .bar
          else if c == ';' then either ';' .endCase .semicolon
          else if c == '(' then return .openParen
          else if c == ')' then return .closeParen
          else
            unread (some c)
            let (word, quoted, stop) ← scan fuel ⟨none, isMark⟩ (.start .none) [] [] false
            let found : Parse Token := do
              modify fun source => { source with word }
              return .word word quoted
            let fd? : Option (Option Nat) := match word with
              | [] => some none
              | [.char false d] => if d.isDigit then some (some (d.toNat - '0'.toNat)) else none
              | _ => none
            match fd?, stop with
            | some fd, some '>' =>
                if quoted then
                  unread stop
                  found
                else
                  let fd := fd.getD 1
                  match ← char with
                  | some '>' => return .redirection fd .append false
                  | some '|' => return .redirection fd .force false
                  | some '&' => return .redirection fd .duplicateOutput false
                  | next =>
                      unread next
                      return .redirection fd .write false
            | some fd, some '<' =>
                if quoted then
                  unread stop
                  found
                else
                  let fd := fd.getD 0
                  match ← char with
                  | some '<' =>
                      let next ← char
                      if next ≠ some '-' then unread next
                      return .redirection fd .document (next = some '-')
                  | some '&' => return .redirection fd .duplicateInput false
                  | some '>' => return .redirection fd .readWrite false
                  | next =>
                      unread next
                      return .redirection fd .read false
            | _, _ =>
                unread stop
                found

/-- The next token, over newlines if asked to; a plain word may be a keyword. -/
def next : Nat → (overLines keywords : Bool) → Parse Token
  | 0, _, _ => fail "text too long"
  | fuel + 1, overLines, keywords => do
      let source ← get
      let found ← match source.pushed with
        | some found => do
            set { source with pushed := none }
            pure found
        | none => token fuel false
      match found with
      | .newline =>
          if overLines then
            hereDocuments fuel
            next fuel overLines keywords
          else return found
      | .word word false =>
          let keyword? := if keywords then (Word.plain? word).bind Keyword.ofText? else none
          return keyword?.elim found .keyword
      | found => return found

/-- The documents that have been announced. -/
def hereDocuments : Nat → Parse Unit
  | 0 => fail "text too long"
  | fuel + 1 => do
      let source ← get
      match source.announced with
      | [] => return
      | document :: rest =>
          set { source with announced := rest }
          let word ← if ← endsDocument document then pure []
            else do
              let quoting : Quoting := if document.literal then .single else .double
              let (word, _, _) ← scan fuel ⟨some document, false⟩ (.start quoting) [] [] false
              pure word
          modify fun source => { source with
            documents := (document.number, word) :: source.documents }
          hereDocuments fuel

/-- Commands as far as they go, after those read so far. -/
def list : Nat → Extent → Option Node → Parse (Option Node)
  | 0, _, _ => fail "text too long"
  | fuel + 1, extent, first => do
      let back (token : Token) : Parse Unit :=
        modify fun source => { source with pushed := some token }
      match ← next fuel (extent != .line) true with
      | .newline =>
          hereDocuments fuel
          return first
      | .endOfFile =>
          back .endOfFile
          return first
      | found =>
          back found
          if found.endsList && (extent == .whole || (extent == .compound && first.isSome)) then
            return first
          let node ← andOr fuel
          let separator ← next fuel false false
          let node := if let .ampersand := separator then node.inBackground else node
          let first := some (node.after first)
          match separator with
          | .newline | .endOfFile =>
              back separator
              list fuel extent first
          | .ampersand | .semicolon => list fuel extent first
          | _ =>
              if extent = .line then unexpected separator
              back separator
              return first

/-- A list of commands with at least one.  There is none at the end of the text, where what has to
come after the list is missing too. -/
def commands : Nat → Parse Node
  | 0 => fail "text too long"
  | fuel + 1 => do return (← list fuel .compound none).getD default

/-- Pipelines joined by `&&` and `||`. -/
def andOr : Nat → Parse Node
  | 0 => fail "text too long"
  | fuel + 1 => do
      let first ← pipeline fuel
      joints fuel first

def joints : Nat → Node → Parse Node
  | 0, _ => fail "text too long"
  | fuel + 1, first => do
      match ← next fuel false false with
      | .andIf =>
          let second ← pipeline fuel
          joints fuel (.andThen first second)
      | .orIf =>
          let second ← pipeline fuel
          joints fuel (.orElse first second)
      | found =>
          modify fun source => { source with pushed := some found }
          return first

/-- Commands joined by `|`. -/
def pipeline : Nat → Parse Node
  | 0 => fail "text too long"
  | fuel + 1 => do
      let found ← next fuel true true
      if !found.isNegation then modify fun source => { source with pushed := some found }
      let first ← command fuel false
      let rest ← piped fuel
      let node := if rest.isEmpty then first else .pipeline (first :: rest)
      return if found.isNegation then .negation node else node

def piped : Nat → Parse (List Node)
  | 0 => fail "text too long"
  | fuel + 1 => do
      match ← next fuel false false with
      | .bar =>
          let node ← command fuel true
          return node :: (← piped fuel)
      | found =>
          modify fun source => { source with pushed := some found }
          return []

def command : Nat → (overLines : Bool) → Parse Node
  | 0, _ => fail "text too long"
  | fuel + 1, overLines => do
      let found ← next fuel overLines true
      let line := (← get).line
      match found with
      | .word .. | .redirection .. =>
          modify fun source => { source with pushed := some found }
          simple fuel line [] [] []
      | .openParen =>
          let body ← commands fuel
          closing fuel .closeParen
          return .subshell line body (← redirects fuel true)
      | .keyword .begin =>
          let body ← commands fuel
          closing fuel (.keyword .end)
          redirectedBy fuel line body
      | .keyword .if =>
          let node ← branches fuel
          redirectedBy fuel line node
      | .keyword .while => redirectedBy fuel line (← loopOf fuel true)
      | .keyword .until => redirectedBy fuel line (← loopOf fuel false)
      | .keyword .for => redirectedBy fuel line (← eachOf fuel line)
      | .keyword .case =>
          match ← next fuel false false with
          | .word subject _ =>
              match ← next fuel true true with
              | .keyword .in =>
                  let cases ← casesOf fuel
                  redirectedBy fuel line (.choice line subject cases)
              | found => expected found (.keyword .in)
          | found => expected found (.word [] false)
      | found => unexpected found

/-- The token that has to come next. -/
def closing : Nat → Token → Parse Unit
  | 0, _ => fail "text too long"
  | fuel + 1, wanted => do
      let found ← next fuel false false
      if found.title ≠ wanted.title then expected found wanted

def redirectedBy : Nat → Nat → Node → Parse Node
  | 0, _, _ => fail "text too long"
  | fuel + 1, line, body => do
      let found ← redirects fuel true
      return if found.isEmpty then body else .redirected line body found

/-- Redirections behind a command.  A word right behind the command may be a keyword. -/
def redirects : Nat → (keywords : Bool) → Parse (List Redirect)
  | 0, _ => fail "text too long"
  | fuel + 1, keywords => do
      match ← next fuel false keywords with
      | .redirection fd kind stripTabs =>
          let first ← target fuel fd kind stripTabs
          return first :: (← redirects fuel false)
      | found =>
          modify fun source => { source with pushed := some found }
          return []

/-- What a redirection leads to. -/
def target : Nat → (fd : Nat) → RedirectKind → (stripTabs : Bool) → Parse Redirect
  | 0, _, _, _ => fail "text too long"
  | fuel + 1, fd, kind, stripTabs => do
      match ← token fuel (kind == .document) with
      | .word word quoted =>
          if kind ≠ .document then return .to fd kind word 0
          let source ← get
          let number := source.documentCount
          let document : Announced := ⟨number, Word.unquoted word, stripTabs, quoted⟩
          set { source with
            documentCount := number + 1, announced := source.announced ++ [document] }
          return .to fd kind [] number
      | found => unexpected found

def branches : Nat → Parse Node
  | 0 => fail "text too long"
  | fuel + 1 => do
      let condition ← commands fuel
      closing fuel (.keyword .then)
      let yes ← commands fuel
      match ← next fuel false false with
      | .keyword .elif => return .branch condition yes (some (← branches fuel))
      | .keyword .else =>
          let no ← commands fuel
          closing fuel (.keyword .fi)
          return .branch condition yes (some no)
      | .keyword .fi => return .branch condition yes none
      | found => expected found (.keyword .fi)

def loopOf : Nat → Bool → Parse Node
  | 0, _ => fail "text too long"
  | fuel + 1, whileTrue => do
      let condition ← commands fuel
      closing fuel (.keyword .do)
      let body ← commands fuel
      closing fuel (.keyword .done)
      return .loop whileTrue condition body

def eachOf : Nat → Nat → Parse Node
  | 0, _ => fail "text too long"
  | fuel + 1, line => do
      let name ← match ← next fuel false false with
        | .word word false => match Word.plain? word with
          | some text => if isName text then pure text else fail "Bad for loop variable"
          | none => fail "Bad for loop variable"
        | _ => fail "Bad for loop variable"
      let words ← match ← next fuel true true with
        | .keyword .in => do
            let (words, stop) ← wordsOf fuel
            match stop with
            | .newline | .semicolon => pure ()
            | stop => unexpected stop
            pure words
        | found => do
            match found with
            | .semicolon => pure ()
            | found => modify fun source => { source with pushed := some found }
            pure [allArguments]
      match ← next fuel true true with
      | .keyword .do => pure ()
      | found => expected found (.keyword .do)
      let body ← commands fuel
      closing fuel (.keyword .done)
      return .each line name words body

/-- Words up to another token. -/
def wordsOf : Nat → Parse (List Word × Token)
  | 0 => fail "text too long"
  | fuel + 1 => do
      match ← next fuel false false with
      | .word word _ =>
          let (words, stop) ← wordsOf fuel
          return (word :: words, stop)
      | found => return ([], found)

/-- The cases up to the end of a choice. -/
def casesOf : Nat → Parse (List (List Word × Option Node))
  | 0 => fail "text too long"
  | fuel + 1 => do
      match ← next fuel true true with
      | .keyword .esac => return []
      | found =>
          if let .openParen := found then let _ ← next fuel false false
          let patterns ← patternsOf fuel
          let body ← list fuel .whole none
          match ← next fuel true true with
          | .keyword .esac => return [(patterns, body)]
          | .endCase => return (patterns, body) :: (← casesOf fuel)
          | found => expected found .endCase

/-- The patterns of a case, up to its parenthesis; the first has been read.  What is no word stands
for the last word before it. -/
def patternsOf : Nat → Parse (List Word)
  | 0 => fail "text too long"
  | fuel + 1 => do
      let pattern := (← get).word
      match ← next fuel false false with
      | .bar =>
          let _ ← next fuel false false
          return pattern :: (← patternsOf fuel)
      | .closeParen => return [pattern]
      | found => expected found .closeParen

/-- A simple command or the definition of a function; what has been read stands last first. -/
def simple : Nat → Nat → List Word → List Word → List Redirect → Parse Node
  | 0, _, _, _, _ => fail "text too long"
  | fuel + 1, line, assignments, words, found => do
      match ← next fuel false false with
      | .word word _ =>
          if words.isEmpty && (Word.assignee? word).isSome then
            simple fuel line (word :: assignments) words found
          else simple fuel line assignments (word :: words) found
      | .redirection fd kind stripTabs =>
          let redirect ← target fuel fd kind stripTabs
          simple fuel line assignments words (redirect :: found)
      | stop =>
          match stop, words, assignments, found with
          | .openParen, [word], [], [] =>
              match ← next fuel false false with
              | .closeParen => pure ()
              | found => expected found .closeParen
              let name := (Word.plain? word).getD []
              if !isName name || specialNames.contains (String.ofList name) then
                fail "Bad function name"
              let line := (← get).line
              return .function line name (← command fuel true)
          | _, _, _, _ =>
              modify fun source => { source with pushed := some stop }
              return .simple line assignments.reverse words.reverse found.reverse

end

end Parse

/-- A source at the start of a text. -/
def Source.start (text : List Char) (documentCount : Nat) : Source where
  text := text
  line := 1
  pushed := none
  word := []
  announced := []
  documents := []
  documentCount := documentCount

/-- A text as the inside of double quotes. -/
def wordOf (text : List Char) : Except Fault Word := do
  let document : Announced := ⟨0, ['\x00'], false, false⟩
  let reading := scan (16 * text.length + 256) ⟨some document, false⟩ (.start .double) [] [] false
  let ((word, _, _), _) ← reading.run (.start text 0)
  return word

/-- What the next line of a source holds. -/
inductive Line
  | ended
  | blank
  | node (node : Node)

/-- Reads the next line. -/
def Source.nextLine (source : Source) : Except Fault (Line × Source) := do
  let (node?, source) ← (list (16 * source.text.length + 256) .line none).run
    { source with pushed := none }
  match node?, source.pushed with
  | some node, _ => return (.node node, source)
  | none, some .endOfFile => return (.ended, source)
  | none, _ => return (.blank, source)

end NodeInventory.Command.Shell
