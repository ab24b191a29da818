import DecimalCalculator.Token.Basic

/-!
# Token streams

A stream is a position in a token sequence, given by the tokens that are still to come. It shows
one token ahead and moves only forward; at the end it shows nothing and stays there.
-/
namespace DecimalCalculator

abbrev TokenStream := List Token

namespace TokenStream

def peek (stream : TokenStream) : Option Token := stream.head?

def peekKind (stream : TokenStream) : Option TokenKind := stream.peek.map Token.kind

def next (stream : TokenStream) : Option Token × TokenStream := (stream.head?, stream.tail)

end TokenStream

end DecimalCalculator
