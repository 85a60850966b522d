/-!
# Scripts of a command shell

A script is text of bytes, kept as characters below 256.  A word is kept flat: what belongs to a
parameter or a sum stands between its opening and its closing piece, so that quotes may open and
close anywhere.
-/

namespace NodeInventory.Command.Shell

/-- What is asked about a parameter. -/
inductive Form
  | value
  | length
  | instead
  | ifSet
  | required
  | assigned
  /-- The value without what a pattern matches at its start, or at its end. -/
  | trimmed (atEnd longest : Bool)
  | malformed
deriving DecidableEq, Repr

structure Parameter where
  name : List Char
  form : Form
  /-- Whether an empty value counts as none. -/
  orEmpty : Bool
deriving DecidableEq, Repr

/-- Whether a word stands behind the parameter, up to a closing piece. -/
def Parameter.nests (parameter : Parameter) : Bool :=
  parameter.form != .value || parameter.orEmpty

inductive RedirectKind
  | write
  | append
  | force
  | read
  | readWrite
  | duplicateOutput
  | duplicateInput
  | document
deriving DecidableEq, Repr

mutual

inductive Piece
  | char (quoted : Bool) (c : Char)
  | quoteMark
  | parameter (parameter : Parameter)
  | close
  | command (body : Option Node)
  | sum
  | closeSum

/-- A redirection of a file descriptor to what a word names, or from the document of a number. -/
inductive Redirect
  | to (fd : Nat) (kind : RedirectKind) (word : List Piece) (document : Nat)

/-- A command with the line it starts on. -/
inductive Node
  | simple (line : Nat) (assignments words : List (List Piece)) (redirects : List Redirect)
  | pipeline (commands : List Node)
  | background (line : Nat) (body : Node) (redirects : List Redirect)
  | subshell (line : Nat) (body : Node) (redirects : List Redirect)
  | redirected (line : Nat) (body : Node) (redirects : List Redirect)
  | andThen (first second : Node)
  | orElse (first second : Node)
  | sequence (first second : Node)
  | negation (body : Node)
  | branch (condition yes : Node) (no : Option Node)
  | loop (whileTrue : Bool) (condition body : Node)
  | each (line : Nat) (name : List Char) (words : List (List Piece)) (body : Node)
  | choice (line : Nat) (subject : List Piece)
      (cases : List (List (List Piece) × Option Node))
  | function (line : Nat) (name : List Char) (body : Node)

end

abbrev Word := List Piece

instance : Inhabited Node := ⟨.simple 0 [] [] []⟩

inductive Keyword
  | negation | case | do | done | elif | else | esac | fi | for | if | in | then | until | while
  | begin | end
deriving DecidableEq, Repr

namespace Keyword

def all : List Keyword :=
  [negation, case, .do, done, elif, .else, esac, fi, .for, .if, .in, .then, .until, .while, .begin,
    .end]

def text : Keyword → String
  | negation => "!"
  | case => "case"
  | .do => "do"
  | done => "done"
  | elif => "elif"
  | .else => "else"
  | esac => "esac"
  | fi => "fi"
  | .for => "for"
  | .if => "if"
  | .in => "in"
  | .then => "then"
  | .until => "until"
  | .while => "while"
  | .begin => "\x7b"
  | .end => "\x7d"

def ofText? (text : List Char) : Option Keyword := all.find? fun k => k.text.toList == text

end Keyword

inductive Token
  | endOfFile
  | newline
  | semicolon
  | ampersand
  | andIf
  | orIf
  | bar
  | openParen
  | closeParen
  | endCase
  | redirection (fd : Nat) (kind : RedirectKind) (stripTabs : Bool)
  | word (word : Word) (quoted : Bool)
  | keyword (keyword : Keyword)

namespace Token

/-- How messages call a token. -/
def title : Token → String
  | endOfFile => "end of file"
  | newline => "newline"
  | semicolon => "\";\""
  | ampersand => "\"&\""
  | andIf => "\"&&\""
  | orIf => "\"||\""
  | bar => "\"|\""
  | openParen => "\"(\""
  | closeParen => "\")\""
  | endCase => "\";;\""
  | redirection .. => "redirection"
  | word .. => "word"
  | keyword k => "\"" ++ k.text ++ "\""

def isNegation : Token → Bool
  | keyword .negation => true
  | _ => false

/-- Tokens that end a list of commands. -/
def endsList : Token → Bool
  | endOfFile | closeParen | endCase => true
  | keyword k => [Keyword.do, .done, .elif, .else, .esac, .fi, .then, .end].contains k
  | _ => false

end Token

def isNameStart (c : Char) : Bool := c.isAlpha || c == '_'

def isNameChar (c : Char) : Bool := c.isAlphanum || c == '_'

/-- Whether a text is the name of a variable. -/
def isName (text : List Char) : Bool := text.head?.any isNameStart && text.all isNameChar

/-- Parameters with names of one sign. -/
def isSpecial (c : Char) : Bool := c.isDigit || "$?#@*!-".toList.contains c

namespace Word

/-- The text of a word that has nothing but plain characters. -/
def plain? (word : Word) : Option (List Char) :=
  word.mapM fun
    | .char false c => some c
    | _ => none

/-- The name in front of the first equals sign, if that is what the word starts with. -/
def assignee? (word : Word) : Option (List Char) :=
  let name := word.takeWhile fun
    | .char false c => isNameChar c
    | _ => false
  match word.drop name.length, plain? name with
  | .char false '=' :: _, some name => if isName name then some name else none
  | _, _ => none

/-- All characters of a word, without its quotes. -/
def unquoted (word : Word) : List Char :=
  word.filterMap fun
    | .char _ c => some c
    | _ => none

end Word

end NodeInventory.Command.Shell
