import GrammarInspector.Text.Table

/-!
Marks: characters that are written onto the character in front of them.
-/

namespace GrammarInspector.Text

/-- The marks. A range may run over code points that no name of a host has. -/
def marks : Table := .ofLines [
    "lc-33 7n-6 7b-18 1 1-1 1-1 1 20-a 1c-k g 2t-6 2-5 2-1 1-3 z u-q 2j-a 1m-8 9 o-3",
    "1-8 1-2 1-4 17-2 1n-8 16-1l 1i-2 1-h 1-6 a-1 t-2 1k 1-f 9 a-1 q-5 1k-l u-1 3 b-2",
    "1k 1-f k-1 m-9 1k 1-p a-1 u 1n-f 9 14-4 1j 1-o b-1 t-2 1k 1-o b-1 f-g 1j-1 1-f 9",
    "a-1 t-2 1y-l i-1 1p 2-6 c-7 2q 2-8 b-6 21-1 r 1 1 4-1 1d-j 1-1 5-1b 9 2s-j n-3",
    "4-2 1-2 2-6 3-3 d-b 1 a-3 jj-2 qa-3 s-2 t-1 u-1 1u-t 9 4n-1 y 3a-r 63-4 1l-16",
    "1c-2c 1b-g 12-8 c-2 u-c 1k-d 1c-j 48-2 1-k 4 6 2-2 5i-1r k0-w 2da-2 3x 2o-v fe-5",
    "2x-1 n9w-3 1-9 w-1 28-1 7k 3 4 n-4 4 2b-1 1e-h q-h d 12-7 p-c 18-3 1b-d 10 1v-d c",
    "8-1 19-2 1e 1-2 2-1 5-1 1 15-4 5-1 6k-7 1-1 fn4 ld-f r1 6a 45-4 1ae-e 14-7 4l-1",
    "fx-3 1t-4 8t-1 25-5 1y-a 1d-3 3e-2 1h-e 15 2-1 a-3 19-a 7 1p-2 10-d g-1 18 c-2",
    "1c-d 8-3 1-1 2k-b 6 2 4d-b l-3 1j-1 1-f 9 a-i 1v-o 1 e-1 2a-h n 29-j 6j-h r-1",
    "2a-g 2y-c 2t-e 74-e 6t-e 1 1-1 3x-f 3 s-9 14-6 1-3 8 9-a 1a-f 5i-7 5j-g 2a-10",
    "3e-k 1 1u-d 9n-3 9-1 1 1c-e n 44l 6-e 8ug-h 1xc-4 1n-6 t4 1-1t 29-d f57-1 3mp-1y",
    "f2-4 3-l 2-6 u-3 44-2 1iz-1i 4-1d 8 e m-k 11s-3z 4g-6 af 1p-3 e4-3 72-1 6r 2 7-1",
    "5 d6-6 31-6"]

def isMark (character : Char) : Bool := marks.covers character

end GrammarInspector.Text
