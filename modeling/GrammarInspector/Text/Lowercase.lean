import GrammarInspector.Text.Table

/-!
Lower-case forms of letters.
-/

namespace GrammarInspector.Text

/-- Letters whose lower-case form is another one. Only the dotted capital `İ` needs two
characters, `i` and a combining dot. -/
def lowercaseForms : Table := .ofLines [
    "1t-p.2p 2t-m.68 1-6.6w x-1a/2.75 1.2x,lj 1-4/2.8j 2-e/2.8q 2-18/2.97 1.73 -4/2.ai",
    "3.gj -2/2.ar 1.gk.aw 1-1.gm.b0 2.d9.gp.gr.b6 1.gw.gz 1.h5.h4.bd 3.hb.he 1.hh",
    "-4/2.bl 1.hs.bs 1.hv 2.bx 1.i0.c0 1-1.i2 -2/2.c4 1.ia -4/4.c9 7.cm.cm 1.cp.cp",
    "1.cs -g/2.cs 2-g/2.db 2.dv -2/2.dv 1.b9.cf -12/2.e1 1.bi 1-g/2.f7 7.8rp.fw",
    "1.be.8rq 2.g2 1.ao.i1.i4 -8/2.g7 81.oh 1-4/4.oj 8.s3 6.q4 1-2.q5 1.r0 1-1.r1",
    "1-g.q9 1-8.qr z.rb 8-m/2.rd 5.qg 2.s8 1.s2.sb 2-2.or -f.uo -v.ts 1c-w/2.v5",
    "9-1g/2.wb 1.y7 -c/2.xu 2-2m/2.y9 2-11.129 289-11.8w0 1.8x3 5.8x9 k2-27.xv4 -5.3y0",
    "1oz.5my 6-16.3bk 2-2.3ct 8w-44/2.5xd 9.67 1-2m/2.61t 9-7.64g 8-5.64w a-7.65c",
    "8-7.65s 8-5.668 b-6/2.66p 8-7.674 o-7.680 8-7.68g 8-7.68w 8-1.69c -1.67k.69f",
    "b-3.67m.69v b-1.6a8 -1.67q c-1.6ao -1.67u.6at b-1.67s -1.67w.6b7 89.qx 3.2z.6d",
    "6.6ku 19-f.6ls j.6mc mq-p.79s 1f4-1b.8q8 1c.8rl 1.h7.5tp.hp 2-4/2.8rs",
    "1.gh.hd.gg.gi 1-3/3.8s3 8-1.fz -2q/2.8sh 8.8vg 1-5/5.8vi nyl-18/2.wu9 j-q/2.ww1",
    "3r-c/2.x0j 3-1o/2.x0z a-2/2.x2y 1.5tl -8/2.x33 4.x3g 1.h1 2-2/2.x3l 3-i/2.x3r",
    "1.h2.gs.gx.h8.h6 1.im.hz.il.xub -e/2.x4l 1.x3o.hu.5u6 -2/2.x54 1.h0 -e/2.x59 1.bf",
    "o.x6e h7v-p.1ef5 xx-13.1fe0 3s-z.1fiw 4c-a.1fo7 1-e.1foj 1-6.1foz 1-1.1fp7",
    "1d6-1e.1h34 4d-l.1h80 27u-v.1jgg gw0-v.20dc 1s-o.20fv o5j-x.2oma"]

/-- The lower-case form of a character: the character itself when it has no other. -/
def lowercase (character : Char) : List Char :=
  (lowercaseForms.image? character).getD [character]

end GrammarInspector.Text
