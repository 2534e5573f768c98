import PetClient.Text.CharTable

/-!
How characters join their neighbours, and which are marks on the character before them.
-/

namespace PetClient.Url.Domain

open Text (CharTable)

/-- The sides on which characters join: left, right, dual, or transparent. -/
def joiningTypes : CharTable := .ofText
    "ad:T 252-6f:T 113-6:T 107-2c:T 1:T 1-1:T 1-1:T 1:T 48-a:T 1:T 3:D 1-3:R 0:D 0:R 0:D 0:R 0-4:D
    0-3:R 0-c:D 1-6:D 0:R 0-1:D 0-14:T e-1:D 0:T 0-2:R 1-2:R 0-f:D 0-11:R 0-25:D 0:R 0-1:D 0-8:R 0:D
    0:R 0:D 0:R 0-1:D 0-1:R 1:R 0-6:T 2-5:T 2-1:T 1-3:T 0-1:R a-2:D 2:D f:T 0:R 0:T 0-2:D 0-4:R
    0-3:D 0:R 0-8:D 0:R 0:D 0:R 0:D 0:R 0-1:D 0:R 0-1a:T 2:R 0-a:D 0-2:R 0-e:D 0-1:R 0-3:D 0:R 0:D
    0-1:R 0-2:D 0-1:R 0-5:D 26-a:T 19-20:D 0-8:T 9:T 18-3:T 1-8:T 1-2:T 1-4:T 12:R 0-4:D 0-1:R 0:D
    0:R 0-9:D 0:R 0:D 0-2:R 0-2:T 4:D 1-3:D 1:R 0:D 0-1:R 5-12:R 3:D 2-4:D 0:R 0:D 7-8:T 0-9:D 0-2:R
    1:R 0-1:D 0-1:R 0-5:D 0:R 0-e:D 1-17:T 1-1f:T 37:T 1:T 4-7:T 4:T 3-6:T a-1:T 1d:T 3a:T 4-3:T 8:T
    14-1:T 1a:T 2-1:T 39:T 4-1:T 4-1:T 2-2:T 3:T 1e-1:T 3:T b-1:T 39:T 4-4:T 1-1:T 4:T 14-1:T 16-5:T
    1:T 3a:T 2:T 1-3:T 8:T 7-1:T b-1:T 1e:T 3d:T c:T 32:T 3:T 37:T 1-2:T 5-2:T 1-3:T 7-1:T b-1:T
    1d:T 3a:T 2:T 6:T 5-1:T 14-1:T 1c-1:T 39-1:T 4-3:T 8:T 14-1:T 1d:T 48:T 7-2:T 1:T 5a:T 2-6:T
    c-7:T 62:T 2-8:T b-6:T 49-1:T 1b:T 1:T 1:T 37-d:T 1-4:T 1-1:T 5-a:T 1-23:T 9:T 66-3:T 1-5:T
    1-1:T 2-1:T 19-1:T 4-2:T 10-3:T d:T 2-1:T 6:T f:T 2bf-2:T 3b2-2:T 1d-1:T 1e-1:T 1e-1:T 40-1:T
    1-6:T 8:T 2-a:T 9:T 29:D 3-2:T 1:T 10-58:D c-1:T 0-21:D 0:T 0:D 75-2:T 4-1:T 9:T 6-2:T db-1:T
    2:T 3a:T 1-6:T 1:T 1:T 2-7:T 6-9:T 2:T 30-2d:T 2-b:T 14-3:T 30:T 1-4:T 1:T 5:T 28-8:T c-1:T
    20-3:T 2-1:T 1-2:T 38:T 1-1:T 3:T 1-2:T 3a-7:T 2-1:T 98-2:T 1-c:T 1-6:T 4:T 6:T 3-1:T c6-3f:T
    20b:T 2-1:T 1a-4:T 31-4:T 5-5:T 60-20:T bfe-2:T 8d:T 60-1f:T 22a-3:T 6b-1:T 75d4-3:T 1-9:T
    20-1:T 50-1:T 110:T 3:T 4:T 19-1:T 5:T 13-31:D 0:L 51-1:T 1a-11:T d:T 26-7:T 19-a:T 2e-2:T 30:T
    2-3:T 2-1:T 27:T 43-5:T 2-1:T 2-1:T c:T 8:T 2f:T 33:T 1-2:T 2-1:T 5-1:T 1:T 2a-1:T 8:T ee:T 2:T
    4:T 4f30:T 2e1-f:T 10-f:T cf:T f9-2:T 201:T e2:T 95-4:T 686-2:T 1-1:T 5-3:T 28-2:T 4:T 80-4:D
    0:R 1:R 1-1:R 2:L 0-4:R 0-3:D 0:L 0-4:D 0:R 0-2:D 0:R 2:R 0-1:T 4-3:D 0:R 90:D 0:R 0:D 0-2:R
    0-2:D 0:R 0-1:D 0:R 0:D 0-1:R 0:D 0:R 17-3:R 0-1:D 151:L 0-20:D 0:R 0:D 0-3:T 41-4:T 13d-1:T
    15:R 0-1:D 1-1:D 32-5:T 30-2:D 0:R 0-10:D 1-a:T 0-2:D 0:R 1b-3:D 0-1:R 0-b:D 0-3:T 2a:D 1-1:D
    0-2:R 1:D 0-1:R 0-1:D 0:R 0-1:D 1:D 0-1:R 0:D 4:R 0:D 0:L 35:T 36-e:T 29:T 2-1:T a-2:T 31-3:T
    2-1:T 7:T 3d-2:T 24-4:T 1-7:T 3e:T c-1:T 34-8:T a-3:T 2:T 5f-2:T 2:T 1-1:T 6:T 2:T 9d:T 3-7:T
    15-1:T 39-1:T 3:T 25-6:T 3-4:T 46-5:T d:T 1:T 1:T e-1:T 55-7:T 2-2:T 1:T 17:T 54-5:T 1:T 4-1:T
    1-1:T ee-3:T 6-1:T 1-1:T 1b-1:T 55-7:T 2:T 1-1:T 6a:T 1:T 2-5:T 1:T 65:T 1:T 2-3:T 1-4:T 103-8:T
    1-1:T 100-1:T 1:T 4:T 90-3:T 2-1:T 4:T 20-9:T 28-5:T 2-3:T 8:T 9-5:T 2-2:T 2e-c:T 1-1:T c6:T
    1-2:T 1:T c9-6:T 1-5:T 1:T 52-15:T 2-6:T 1-1:T 1-1:T 7a-5:T 3:T 1-1:T 1-6:T 1:T 48-1:T 3:T 1:T
    15b-1:T b-1:T 34-4:T 5:T 1:T 17:T 14d5-10:T 6-e:T 2cc8-b:T 3-2:T 9c0-4:T 3b-6:T 418:T 3f-3:T
    51:T 4cb8-1:T 1-3:T 125c-2d:T 2-16:T 220-2:T 9-f:T 2-6:T 1e-3:T 94-2:T 7bb-36:T 4-31:T 8:T e:T
    16-4:T 1-e:T 550-6:T 1-10:T 2-6:T 1-1:T 1-4:T 64:T a0-6:T 177:T 3d-3:T 1fc-3:T fe-1:T f3:T 2:T
    7-1:T 5:T 1da-6:T 29-43:D 0-7:T c16b5:T 1e-5f:T 80-ef:T"

def marks : CharTable := .ofText
    "300-6f 113-6 107-2c 1 1-1 1-1 1 48-a 30-14 10 65-6 2-5 2-1 1-3 23 1e-1a 5b-a 3a-8 9 18-3 1-8
    1-2 1-4 2b-2 3b-8 2a-17 1-20 36-2 1-11 1-6 a-1 1d-2 38 1-6 2-1 2-2 9 a-1 1a 2-2 38 1-4 4-1 2-2 3
    1e-1 3 b-2 38 1-7 1-2 1-2 14-1 16-5 1-2 38 1-6 2-1 2-2 7-2 a-1 1e 3b-4 3-2 1-3 9 28-4 37 1-6 1-2
    1-3 7-1 b-1 1d-2 38 1-6 1-2 1-3 7-1 b-1 f c-3 37-1 1-6 1-2 1-3 9 a-1 1d-2 46 4-5 1 1-7 12-1 3d
    2-6 c-7 62 2-8 b-6 49-1 1b 1 1 4-1 31-13 1-1 5-a 1-23 9 64-13 17-3 4-2 1-2 2-6 3-3 d-b 1 a-3
    2bf-2 3b2-3 1c-2 1d-1 1e-1 40-1f 9 2d-2 1 75-1 22 76-b 4-b db-4 39-9 1-1c 2 30-2d 2-b 14-4 2f-10
    26-8 c-2 1e-c 38-d 30-13 98-2 1-14 4 6 2-2 c6-3f 2d0-20 bfe-2 8d 60-1f 22a-5 69-1 75d4-3 1-9
    20-1 50-1 110 3 4 17-4 4 53-1 32-11 1a-11 d 26-7 19-c 2c-3 2f-d 24 43-d c 8-1 2d-2 32 1-2 2-1
    5-1 1 29-4 5-1 ec-7 1-1 4f30 2e1-f 10-f 3cd e2 95-4 686-2 1-1 5-3 28-2 4 a5-1 23d-3 41-4 13d-1
    4d-5 46-a 31-3 7a-2 35-e 29 2-1 a-3 2d-a 7 3d-2 24-d 10-1 2c c-2 30-d 8-3 1-1 5c-b 6 2 9d-b 15-3
    37-1 1-6 2-1 2-2 9 a-1 2-6 3-4 43-8 1 2 1-3 1-4 1 e-1 52-11 17 51-13 eb-6 2-8 1b-1 52-10 6a-c
    65-e 100-e f5-5 1-1 2-3 1 1-1 8d-6 2-6 3 1c-9 28-6 1-3 8 9-a 2e-f c6-7 c7-7 1-7 52-15 1-d 7a-5 3
    1-1 1-6 1 42-4 1-1 1-4 15b-3 9-1 1 30-6 3-4 17 14e5 6-e 2cc8-11 9c0-4 3b-6 418 1-36 7-3 51 b-1
    4cab-1 1261-2d 2-16 21e-4 3-5 8-7 2-6 1e-3 94-2 7bb-36 4-31 8 e 16-4 1-e 550-6 1-10 2-6 1-1 1-4
    64 a0-6 177 3d-3 1fc-3 fe-1 f3 2 7-1 5 1da-6 6d-6 c17b5-ef"

end PetClient.Url.Domain
