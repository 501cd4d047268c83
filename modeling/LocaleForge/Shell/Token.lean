/-!
The tokens of scripts, and their names in messages.
-/

namespace LocaleForge.Shell

/-- Words that mean something where a command begins. -/
inductive Keyword where
  | bang
  | caseWord
  | doWord
  | doneWord
  | elifWord
  | elseWord
  | esacWord
  | fiWord
  | forWord
  | ifWord
  | inWord
  | thenWord
  | untilWord
  | whileWord
  | openBrace
  | closeBrace
deriving DecidableEq, Repr

namespace Keyword

def all : List Keyword :=
  [bang, caseWord, doWord, doneWord, elifWord, elseWord, esacWord, fiWord, forWord, ifWord, inWord, thenWord,
    untilWord, whileWord, openBrace, closeBrace]

def text : Keyword → String
  | bang => "!"
  | caseWord => "case"
  | doWord => "do"
  | doneWord => "done"
  | elifWord => "elif"
  | elseWord => "else"
  | esacWord => "esac"
  | fiWord => "fi"
  | forWord => "for"
  | ifWord => "if"
  | inWord => "in"
  | thenWord => "then"
  | untilWord => "until"
  | whileWord => "while"
  | openBrace => "\x7b"
  | closeBrace => "\x7d"

def ofText? (s : String) : Option Keyword :=
  all.find? (·.text == s)

theorem ofText?_text (k : Keyword) : ofText? k.text = some k := by
  cases k <;> rfl

end Keyword

/-- A token of a script. -/
inductive Token where
  | endOfFile
  | newline
  | semicolon
  | ampersand
  | and
  | or
  | pipe
  | openParen
  | closeParen
  | clauseEnd
  | redirection
  | word
  | keyword (k : Keyword)
deriving DecidableEq, Repr

namespace Token

/-- What messages call a token. -/
def name : Token → String
  | endOfFile => "end of file"
  | newline => "newline"
  | semicolon => quoted ";"
  | ampersand => quoted "&"
  | and => quoted "&&"
  | or => quoted "||"
  | pipe => quoted "|"
  | openParen => quoted "("
  | closeParen => quoted ")"
  | clauseEnd => quoted ";;"
  | redirection => "redirection"
  | word => "word"
  | keyword k => quoted k.text
where
  quoted (s : String) : String := "\"" ++ s ++ "\""

/-- No command can begin here; a list of commands ends. -/
def endsList : Token → Bool
  | endOfFile | closeParen | clauseEnd => true
  | keyword k =>
    [Keyword.doWord, .doneWord, .elifWord, .elseWord, .esacWord, .fiWord, .thenWord, .closeBrace].contains k
  | _ => false

end Token

end LocaleForge.Shell
